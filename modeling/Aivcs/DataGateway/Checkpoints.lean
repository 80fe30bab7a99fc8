import Aivcs.Lib.Digest
import Aivcs.DataGateway.RecordStep

/-!
# DataGateway.Checkpoints — which states can be read back

A state whose encoding is at most as long as the threshold is in its checkpoint.  Of a larger one the
checkpoint holds the digest, and the handler keeps the bytes nowhere.

* `state_recoverable_iff` — a recorded state can be recovered exactly when it is inline.
-/

namespace Aivcs
namespace DataGateway

open Aivcs.Lib

variable {N : Type}

/-- The checkpoint that was added has the state in one of two ways, by the size of its encoding, and the
state can be had from it: it is there, or its bytes are in the content store under the digest. -/
structure Recoverable (G : GatewayState N) (c : Call N) (before after : Storage N)
    (row : OrchestrationCheckpoint N) : Prop where
  added : after.checkpoints = before.checkpoints ++ [row]
  one : row.inlineState.isSome = true ↔ row.casBlobDigest = none
  inline : row.inlineState.isSome = true ↔ (G.payloadBytes c).length ≤ G.casThresholdBytes
  held : row.inlineState = some c.request.statePayload ∨
    ∃ digest bytes, row.casBlobDigest = some digest ∧ after.blobs digest = some bytes ∧
      G.sha256Hex bytes = digest

/-- The two ways a state is kept. -/
theorem offload_cases (G : GatewayState N) (c : Call N) :
    ((G.payloadBytes c).length ≤ G.casThresholdBytes ∧
      G.offload c = ("inline_jsonb", some c.request.statePayload, none)) ∨
    (G.casThresholdBytes < (G.payloadBytes c).length ∧
      G.offload c = ("cas_blob_ref", none, some (G.sha256Hex (G.payloadBytes c)))) := by
  by_cases h : (G.payloadBytes c).length > G.casThresholdBytes
  · exact Or.inr ⟨h, if_pos h⟩
  · exact Or.inl ⟨Nat.not_lt.1 h, if_neg h⟩

section Accepted

variable {G : GatewayState N} {c : Call N} {s : Storage N}

theorem recoverable_of_le (h : (G.payloadBytes c).length ≤ G.casThresholdBytes) :
    Recoverable G c s (G.commit c s)
      (c.checkpoint "inline_jsonb" (some c.request.statePayload) none) := by
  have hoffload : G.offload c = ("inline_jsonb", some c.request.statePayload, none) :=
    if_neg (Nat.not_lt.2 h)
  refine ⟨by rw [G.checkpoints_commit, hoffload], ?_, ?_, Or.inl rfl⟩
  · exact iff_of_true rfl rfl
  · exact iff_of_true rfl h

/-- A handler that has never written to the content store has not kept what is not inline. -/
theorem Recoverable.le {row : OrchestrationCheckpoint N} (h : Recoverable G c s (G.commit c s) row)
    (hblobs : s.blobs = ∅) : (G.payloadBytes c).length ≤ G.casThresholdBytes := by
  have hadded := h.added
  rw [G.checkpoints_commit] at hadded
  obtain rfl := List.singleton_inj.1 (List.append_cancel_left hadded)
  rcases offload_cases G c with ⟨hle, _⟩ | ⟨_, hoffload⟩
  · exact hle
  · rw [hoffload] at h
    rcases h.held with hinline | ⟨digest, bytes, _, hstored, _⟩
    · cases hinline
    · rw [G.blobs_commit, hblobs] at hstored
      cases hstored

end Accepted

/-- After any calls, the state of a call that is answered can be recovered exactly when its encoding is no
longer than the threshold. -/
theorem state_recoverable_iff (G : GatewayState N) (calls : List (Call N)) (c : Call N)
    (response : StepResponse) (h : (G.recordStep c (G.after .empty calls)).1 = .ok response) :
    (∃ row, Recoverable G c (G.after .empty calls) (G.recordStep c (G.after .empty calls)).2 row) ↔
      (G.payloadBytes c).length ≤ G.casThresholdBytes := by
  have haccepted := ((G.recordStep_fst_eq_ok_iff).1 h).1
  rw [G.recordStep_of_accepted haccepted]
  constructor
  · rintro ⟨row, hrow⟩
    exact hrow.le (G.blobs_after calls .empty)
  · intro hle
    exact ⟨_, recoverable_of_le hle⟩

section Large

/-- A gateway with a threshold of 100 bytes. -/
def smallGateway : GatewayState Int where
  casThresholdBytes := 100
  numText := Json.renderInt
  sha256Hex := tableHexDigest []

/-- A step with a state of a few hundred bytes. -/
def largeStep : Call Int where
  request :=
    { runId := "0190a5c4-7d1e-7000-8000-000000000001"
      stepIndex := 0
      agentId := "agent"
      action := "compile"
      result := "ok"
      parentStepId := none
      executionTimeMs := 1
      statePayload := .obj [("large_data", .str (String.ofList (List.replicate 500 'A')))] }
  stepId := "0190a5c4-7d1e-7000-8000-000000000003"
  checkpointId := "0190a5c4-7d1e-7000-8000-000000000004"
  failure := fun _ => none

theorem length_largeStep : ¬ (smallGateway.payloadBytes largeStep).length ≤ 100 := by
  decide +kernel

theorem recordStep_largeStep : (smallGateway.recordStep largeStep .empty).1 =
    .ok (smallGateway.response largeStep) :=
  (smallGateway.recordStep_fst_eq_ok_iff).2 ⟨rfl, rfl⟩

theorem not_recoverable_largeStep :
    ¬ ∀ (G : GatewayState Int) (calls : List (Call Int)) (c : Call Int) (response : StepResponse),
      (G.recordStep c (G.after .empty calls)).1 = .ok response →
      ∃ row, Recoverable G c (G.after .empty calls) (G.recordStep c (G.after .empty calls)).2 row := by
  intro h
  rcases h smallGateway [] largeStep _ recordStep_largeStep with ⟨row, hrow⟩
  have haccepted : largeStep.accepted = true := rfl
  rw [smallGateway.recordStep_of_accepted haccepted] at hrow
  exact length_largeStep (hrow.le rfl)

theorem state_recoverable_iff_largeStep :
    (∃ row, Recoverable smallGateway largeStep .empty
      (smallGateway.recordStep largeStep .empty).2 row) ↔
    (smallGateway.payloadBytes largeStep).length ≤ 100 :=
  state_recoverable_iff smallGateway [] largeStep _ recordStep_largeStep

end Large

end DataGateway
end Aivcs
