import Aivcs.Hitl.Runs
import Mathlib.Data.Finset.Card
import Mathlib.Data.List.Perm.Basic

/-!
# Hitl.Quorum — an approved checkpoint has its quorum

`evaluateCheckpoint` counts votes, not voters.  That a count is one of different voters rests on what
`submitVote` refuses, so `Session.Quorum` carries the voters of the accepted votes along the run.

* `approved_quorum` — in every reachable state an approved checkpoint has its quorum of different
  voters and no vote against it, and the order of the votes never matters.
-/

namespace Aivcs
namespace Hitl

open Aivcs.Lib Aivcs.State

/-! ## Approved checkpoints -/

/-- What a vote list keeps along a run, for a checkpoint `checkpointId` of tier `riskTier`. -/
structure Session.Quorum (checkpointId : String) (riskTier : RiskTier) (s : Session) : Prop where
  checkpointId_eq : s.checkpoint.checkpointId = checkpointId
  riskTier_eq : s.checkpoint.riskTier = riskTier
  voters_nodup : (s.votes.map ApprovalVote.voter).Nodup
  votes_for : ∀ v ∈ s.votes, v.checkpointId = checkpointId
  approved : s.status = .approved →
    riskTier.minApprovals ≤ s.votes.countP (fun v => v.decision.isApproval) ∧
      ∀ v ∈ s.votes, v.decision.isBlocking = false

section Quorum

variable {checkpointId : String} {riskTier : RiskTier} {s : Session}

/-- A status other than approved may be written. -/
theorem Session.Quorum.withStatus (h : s.Quorum checkpointId riskTier) {status : CheckpointStatus}
    (hstatus : status ≠ .approved) :
    Session.Quorum checkpointId riskTier ⟨{ s.checkpoint with status := status }, s.votes⟩ where
  checkpointId_eq := h.checkpointId_eq
  riskTier_eq := h.riskTier_eq
  voters_nodup := h.voters_nodup
  votes_for := h.votes_for
  approved := fun happroved => absurd happroved hstatus

theorem minApprovals_le_of_ready {now : Timestamp} (h : s.Ready now) :
    s.checkpoint.riskTier.minApprovals ≤ s.votes.countP (fun v => v.decision.isApproval) := by
  rcases h.2.2 with ⟨hcount, _⟩ | hauto
  · exact hcount.trans (Nat.mod_le _ _)
  · cases htier : s.checkpoint.riskTier with
    | low | medium =>
        exact Nat.zero_le _
    | high | critical =>
        simp [htier, RiskTier.requiresApproval] at hauto

/-- A vote of a new voter is accepted for an undecided checkpoint only. -/
theorem Session.Quorum.withVote (h : s.Quorum checkpointId riskTier) {v : ApprovalVote}
    (hterm : s.status.isTerminal = false) (hid : v.checkpointId = s.checkpoint.checkpointId)
    (hnew : ∀ u ∈ s.votes, u.voter ≠ v.voter) :
    Session.Quorum checkpointId riskTier ⟨s.checkpoint, s.votes ++ [v]⟩ where
  checkpointId_eq := h.checkpointId_eq
  riskTier_eq := h.riskTier_eq
  voters_nodup := by
    rw [List.map_append, List.nodup_append]
    refine ⟨h.voters_nodup, by simp, ?_⟩
    intro w hw w' hw'
    rcases List.mem_map.1 hw with ⟨u, hu, rfl⟩
    have hlast : w' = v.voter := by simpa using hw'
    exact hlast ▸ hnew u hu
  votes_for := by
    intro w hw
    rcases List.mem_append.1 hw with hold | hlast
    · exact h.votes_for w hold
    · have hwv : w = v := by simpa using hlast
      exact hwv ▸ hid.trans h.checkpointId_eq
  approved := by
    intro happroved
    have happroved : s.status = .approved := happroved
    simp [happroved, CheckpointStatus.isTerminal] at hterm

/-- The tally that makes a session ready is the quorum of its tier. -/
theorem Session.Quorum.approve (h : s.Quorum checkpointId riskTier) {now : Timestamp}
    (hready : s.Ready now) :
    Session.Quorum checkpointId riskTier ⟨{ s.checkpoint with status := .approved }, s.votes⟩ where
  checkpointId_eq := h.checkpointId_eq
  riskTier_eq := h.riskTier_eq
  voters_nodup := h.voters_nodup
  votes_for := h.votes_for
  approved := fun _ => ⟨h.riskTier_eq ▸ minApprovals_le_of_ready hready, hready.2.1⟩

theorem Session.Quorum.step (h : s.Quorum checkpointId riskTier) (i : HitlStep) :
    (s.step i).Quorum checkpointId riskTier := by
  cases i with
  | vote v now =>
      rcases s.step_vote v now with hs | ⟨_, hs⟩ | ⟨hterm, hid, hnew, hs⟩
      · rwa [hs]
      · rw [hs]
        exact h.withStatus (by simp)
      · rw [hs]
        exact h.withVote hterm hid hnew
  | evaluate now =>
      rcases s.step_evaluate now with hs | ⟨_, status, hrefused | ⟨rfl, hready⟩, hs⟩
      · rwa [hs]
      · rw [hs]
        apply h.withStatus
        rintro rfl
        cases hrefused.2
      · rw [hs]
        exact h.approve hready
  | intervene action =>
      rcases s.step_intervene action with ⟨_, hs⟩ | ⟨_, _, hs⟩ | ⟨_, _, hs⟩ | ⟨reason, _, hs⟩
      · rw [hs]
        exact h.withStatus (by simp)
      · rw [hs]
        exact h.withStatus (by simp)
      · rwa [hs]
      · rw [hs]
        exact h.withStatus (by simp)

theorem quorum_start (timeoutSecs : Option UInt64) (now : Timestamp) :
    (Session.start checkpointId riskTier timeoutSecs now).Quorum checkpointId riskTier where
  checkpointId_eq := rfl
  riskTier_eq := rfl
  voters_nodup := List.nodup_nil
  votes_for := by simp [Session.start]
  approved := fun h => by cases h

/-- The voters that approved. -/
def approvers (votes : List ApprovalVote) : Finset String :=
  ((votes.filter fun v => v.decision.isApproval).map ApprovalVote.voter).toFinset

theorem card_approvers {votes : List ApprovalVote} (h : (votes.map ApprovalVote.voter).Nodup) :
    (approvers votes).card = votes.countP fun v => v.decision.isApproval := by
  have hnodup : ((votes.filter fun v => v.decision.isApproval).map ApprovalVote.voter).Nodup :=
    h.sublist (List.filter_sublist.map _)
  calc
    (approvers votes).card
        = ((votes.filter fun v => v.decision.isApproval).map ApprovalVote.voter).length :=
          List.toFinset_card_of_nodup hnodup
    _ = (votes.filter fun v => v.decision.isApproval).length := List.length_map _
    _ = votes.countP fun v => v.decision.isApproval := List.countP_eq_length_filter.symm

theorem mem_approvers {votes : List ApprovalVote} {voter : String} :
    voter ∈ approvers votes ↔ ∃ v ∈ votes, v.voter = voter ∧ v.decision = .approve := by
  simp [approvers, VoteDecision.isApproval]
  grind

end Quorum

/-! ## The order of the votes -/

/-- A status without the reason of a rejection, which is that of the first vote that rejects. -/
def CheckpointStatus.withoutReason : CheckpointStatus → CheckpointStatus
  | .rejected _ => .rejected ""
  | status => status

theorem evaluateCheckpoint_perm (checkpoint : ApprovalCheckpoint) {votes votes' : List ApprovalVote}
    (h : votes.Perm votes') (now : Timestamp) :
    (evaluateCheckpoint checkpoint votes now).map CheckpointStatus.withoutReason =
      (evaluateCheckpoint checkpoint votes' now).map CheckpointStatus.withoutReason := by
  have hcount : approvalCount votes = approvalCount votes' := by
    simp [approvalCount, h.countP_eq]
  have hblock : (votes.find? fun v => v.decision.isBlocking).isSome =
      (votes'.find? fun v => v.decision.isBlocking).isSome := by
    rw [Bool.eq_iff_iff, List.find?_isSome, List.find?_isSome]
    simp [h.mem_iff]
  unfold evaluateCheckpoint
  split
  · rfl
  · split
    · rfl
    · rw [hcount]
      cases hfind : votes.find? fun v => v.decision.isBlocking with
      | none =>
          cases hfind' : votes'.find? fun v => v.decision.isBlocking with
          | none =>
              rfl
          | some v =>
              simp [hfind, hfind'] at hblock
      | some v =>
          cases hfind' : votes'.find? fun v => v.decision.isBlocking with
          | none =>
              simp [hfind, hfind'] at hblock
          | some v' =>
              rfl

/-- In every reachable state an approved checkpoint has votes that approve it from as many different
voters as its tier asks for and none that rejects it, and no evaluation depends on the order of the
votes. -/
theorem approved_quorum (checkpointId : String) (riskTier : RiskTier) (timeoutSecs : Option UInt64)
    (now : Timestamp) (l : List HitlStep) :
    Always Session.step (fun s => s.status = .approved →
      (∃ voters : Finset String, riskTier.minApprovals ≤ voters.card ∧
        ∀ voter ∈ voters, ∃ v ∈ s.votes,
          v.voter = voter ∧ v.decision = .approve ∧ v.checkpointId = checkpointId) ∧
      ∀ v ∈ s.votes, v.decision ≠ .reject)
      (Session.start checkpointId riskTier timeoutSecs now) l ∧
    ∀ (checkpoint : ApprovalCheckpoint) (votes votes' : List ApprovalVote) (now : Timestamp),
      votes.Perm votes' →
      (evaluateCheckpoint checkpoint votes now).map CheckpointStatus.withoutReason =
        (evaluateCheckpoint checkpoint votes' now).map CheckpointStatus.withoutReason := by
  refine ⟨?_, fun checkpoint _ _ now h => evaluateCheckpoint_perm checkpoint h now⟩
  intro pre hpre happroved
  have hrun : Always Session.step (Session.Quorum checkpointId riskTier)
      (Session.start checkpointId riskTier timeoutSecs now) l :=
    always_of_step (fun _ i h => h.step i) (quorum_start timeoutSecs now) l
  have hquorum := hrun pre hpre
  rcases hquorum.approved happroved with ⟨hcount, hnone⟩
  refine ⟨⟨_, hcount.trans (card_approvers hquorum.voters_nodup).ge, ?_⟩, ?_⟩
  · intro voter hvoter
    rcases mem_approvers.1 hvoter with ⟨v, hv, hname, hyes⟩
    exact ⟨v, hv, hname, hyes, hquorum.votes_for v hv⟩
  · intro v hv
    simpa [VoteDecision.isBlocking] using hnone v hv

end Hitl
end Aivcs
