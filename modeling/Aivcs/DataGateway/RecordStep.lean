import Aivcs.Lib.JsonText
import Aivcs.Lib.Map

/-!
# DataGateway.RecordStep — recording orchestration steps

`record_step_handler` of `data-gateway`: one transaction inserts the run if it is new, the step, an edge from
the parent if one is named, and a checkpoint with the state of the step.  The state goes into the checkpoint
as it is, or as the digest of its encoding when that is larger than the threshold.

The tables have no constraints here.  A call of the database that fails ends the handler, and the
transaction that is not committed leaves nothing behind.

* `tables_of_calls` — steps and edges after any calls are those of the accepted ones, in order.
-/

namespace Aivcs
namespace DataGateway

open Aivcs.Lib

/-- In its hyphenated text form. -/
abbrev Uuid := String

/-! ## Requests and tables -/

variable {N : Type}

structure RecordStepRequest (N : Type) where
  runId : Uuid
  stepIndex : Int
  agentId : String
  action : String
  result : String
  parentStepId : Option Uuid
  executionTimeMs : Int
  statePayload : Doc N

structure StepResponse where
  stepId : Uuid
  checkpointId : Uuid
  payloadType : String
  casDigest : Option String
  deriving DecidableEq

structure OrchestrationRun where
  runId : Uuid
  sessionId : String
  rootNode : String
  status : String
  metadata : String
  deriving DecidableEq

structure OrchestrationStep where
  stepId : Uuid
  runId : Uuid
  stepIndex : Int
  agentId : String
  action : String
  resultSummary : String
  executionTimeMs : Int
  deriving DecidableEq

structure OrchestrationEdge where
  runId : Uuid
  fromStepId : Uuid
  toStepId : Uuid
  deriving DecidableEq

structure OrchestrationCheckpoint (N : Type) where
  checkpointId : Uuid
  runId : Uuid
  stepId : Uuid
  threadId : String
  nodeId : String
  payloadType : String
  inlineState : Option (Doc N)
  casBlobDigest : Option String
  stepNumber : Int

/-- The tables, and the content store a `cas_blob_ref` refers to. -/
structure Storage (N : Type) where
  runs : List OrchestrationRun
  steps : List OrchestrationStep
  edges : List OrchestrationEdge
  checkpoints : List (OrchestrationCheckpoint N)
  blobs : Map String Bytes

namespace Storage

def empty : Storage N where
  runs := []
  steps := []
  edges := []
  checkpoints := []
  blobs := ∅

/-- `ON CONFLICT (run_id) DO NOTHING`. -/
def upsertRun (s : Storage N) (run : OrchestrationRun) : Storage N :=
  if s.runs.any fun r => r.runId = run.runId then s else { s with runs := s.runs ++ [run] }

def insertStep (s : Storage N) (step : OrchestrationStep) : Storage N :=
  { s with steps := s.steps ++ [step] }

def insertEdge (s : Storage N) (edge : OrchestrationEdge) : Storage N :=
  { s with edges := s.edges ++ [edge] }

def insertCheckpoint (s : Storage N) (checkpoint : OrchestrationCheckpoint N) : Storage N :=
  { s with checkpoints := s.checkpoints ++ [checkpoint] }

section Frame

variable (s : Storage N) (run : OrchestrationRun) (step : OrchestrationStep)
  (edge : OrchestrationEdge) (checkpoint : OrchestrationCheckpoint N)

@[simp] theorem steps_upsertRun : (s.upsertRun run).steps = s.steps := by
  unfold upsertRun
  split <;> rfl

@[simp] theorem edges_upsertRun : (s.upsertRun run).edges = s.edges := by
  unfold upsertRun
  split <;> rfl

@[simp] theorem checkpoints_upsertRun : (s.upsertRun run).checkpoints = s.checkpoints := by
  unfold upsertRun
  split <;> rfl

@[simp] theorem blobs_upsertRun : (s.upsertRun run).blobs = s.blobs := by
  unfold upsertRun
  split <;> rfl

@[simp] theorem steps_insertStep : (s.insertStep step).steps = s.steps ++ [step] := rfl

@[simp] theorem edges_insertStep : (s.insertStep step).edges = s.edges := rfl

@[simp] theorem checkpoints_insertStep : (s.insertStep step).checkpoints = s.checkpoints := rfl

@[simp] theorem blobs_insertStep : (s.insertStep step).blobs = s.blobs := rfl

@[simp] theorem steps_insertEdge : (s.insertEdge edge).steps = s.steps := rfl

@[simp] theorem edges_insertEdge : (s.insertEdge edge).edges = s.edges ++ [edge] := rfl

@[simp] theorem checkpoints_insertEdge : (s.insertEdge edge).checkpoints = s.checkpoints := rfl

@[simp] theorem blobs_insertEdge : (s.insertEdge edge).blobs = s.blobs := rfl

@[simp] theorem steps_insertCheckpoint : (s.insertCheckpoint checkpoint).steps = s.steps := rfl

@[simp] theorem edges_insertCheckpoint : (s.insertCheckpoint checkpoint).edges = s.edges := rfl

@[simp] theorem checkpoints_insertCheckpoint :
    (s.insertCheckpoint checkpoint).checkpoints = s.checkpoints ++ [checkpoint] := rfl

@[simp] theorem blobs_insertCheckpoint : (s.insertCheckpoint checkpoint).blobs = s.blobs := rfl

end Frame

end Storage

/-! ## The handler -/

/-- The calls of the database, in order. -/
inductive Stage
  | begin
  | runUpsert
  | stepInsert
  | edgeInsert
  | checkpointInsert
  | commit
  deriving DecidableEq

def Stage.message : Stage → String → String
  | .begin, e => "DB Tx begin failed: " ++ e
  | .runUpsert, e => "Run upsert failed: " ++ e
  | .stepInsert, e => "Step insert failed: " ++ e
  | .edgeInsert, e => "Edge insert failed: " ++ e
  | .checkpointInsert, e => "Checkpoint insert failed: " ++ e
  | .commit, e => "DB Tx commit failed: " ++ e

/-- `GatewayState`, with what it is built from: how numbers are written and the digest. -/
structure GatewayState (N : Type) where
  casThresholdBytes : Nat
  numText : N → Bytes
  /-- SHA-256 in lower-case hexadecimal. -/
  sha256Hex : Bytes → String

/-- One call of the handler: the request, the ids drawn for it, and how the database answers each call. -/
structure Call (N : Type) where
  request : RecordStepRequest N
  stepId : Uuid
  checkpointId : Uuid
  failure : Stage → Option String

namespace Call

variable (c : Call N)

def attempt (stage : Stage) : Except (Nat × String) Unit :=
  match c.failure stage with
  | none => .ok ()
  | some e => .error (500, stage.message e)

def run : OrchestrationRun where
  runId := c.request.runId
  sessionId := "session_" ++ c.request.runId
  rootNode := c.request.agentId
  status := "running"
  metadata := "\x7b\x7d"

def step : OrchestrationStep where
  stepId := c.stepId
  runId := c.request.runId
  stepIndex := c.request.stepIndex
  agentId := c.request.agentId
  action := c.request.action
  resultSummary := c.request.result
  executionTimeMs := c.request.executionTimeMs

def edge (parentId : Uuid) : OrchestrationEdge where
  runId := c.request.runId
  fromStepId := parentId
  toStepId := c.stepId

def checkpoint (payloadType : String) (inlineState : Option (Doc N)) (casDigest : Option String) :
    OrchestrationCheckpoint N where
  checkpointId := c.checkpointId
  runId := c.request.runId
  stepId := c.stepId
  threadId := c.request.runId
  nodeId := c.request.agentId
  payloadType := payloadType
  inlineState := inlineState
  casBlobDigest := casDigest
  stepNumber := c.request.stepIndex

end Call

namespace GatewayState

variable (G : GatewayState N)

/-- `serde_json::to_vec` of the state; a JSON value is always encoded. -/
def payloadBytes (c : Call N) : Bytes :=
  c.request.statePayload.render G.numText

/-- The payload type, the inline state and the digest. -/
def offload (c : Call N) : String × Option (Doc N) × Option String :=
  let payloadBytes := G.payloadBytes c
  if payloadBytes.length > G.casThresholdBytes then
    ("cas_blob_ref", none, some (G.sha256Hex payloadBytes))
  else
    ("inline_jsonb", some c.request.statePayload, none)

/-- The transaction: the answer and what is committed. -/
def transaction (c : Call N) (s : Storage N) : Except (Nat × String) (StepResponse × Storage N) := do
  let (payloadType, inlineJson, casDigest) := G.offload c
  -- A call that fails ends the transaction, which is then rolled back.
  c.attempt .begin
  c.attempt .runUpsert
  let s := s.upsertRun c.run
  c.attempt .stepInsert
  let s := s.insertStep c.step
  let s ← match c.request.parentStepId with
    | none => pure s
    | some parentId => do
        c.attempt .edgeInsert
        pure (s.insertEdge (c.edge parentId))
  c.attempt .checkpointInsert
  let s := s.insertCheckpoint (c.checkpoint payloadType inlineJson casDigest)
  c.attempt .commit
  return ({ stepId := c.stepId
            checkpointId := c.checkpointId
            payloadType := payloadType
            casDigest := casDigest }, s)

/-- `record_step_handler`. -/
def recordStep (c : Call N) (s : Storage N) : Except (Nat × String) StepResponse × Storage N :=
  match G.transaction c s with
  | .ok (response, s') => (.ok response, s')
  | .error e => (.error e, s)

/-- The storage after some calls. -/
def after (s : Storage N) (calls : List (Call N)) : Storage N :=
  calls.foldl (fun s c => (G.recordStep c s).2) s

end GatewayState

/-! ## What a call leaves behind -/

/-- The calls of the database that are made. -/
def Call.stages (c : Call N) : List Stage :=
  match c.request.parentStepId with
  | none => [.begin, .runUpsert, .stepInsert, .checkpointInsert, .commit]
  | some _ => [.begin, .runUpsert, .stepInsert, .edgeInsert, .checkpointInsert, .commit]

/-- None of them fails. -/
def Call.accepted (c : Call N) : Bool :=
  c.stages.all fun stage => c.failure stage = none

def Call.edges (c : Call N) : List OrchestrationEdge :=
  c.request.parentStepId.toList.map c.edge

namespace GatewayState

variable (G : GatewayState N) {c : Call N} {s : Storage N}

/-- The answer to an accepted call. -/
def response (c : Call N) : StepResponse :=
  let (payloadType, _, casDigest) := G.offload c
  { stepId := c.stepId
    checkpointId := c.checkpointId
    payloadType := payloadType
    casDigest := casDigest }

/-- What it leaves in the tables. -/
def commit (c : Call N) (s : Storage N) : Storage N :=
  let (payloadType, inlineJson, casDigest) := G.offload c
  (c.edges.foldl Storage.insertEdge ((s.upsertRun c.run).insertStep c.step)).insertCheckpoint
    (c.checkpoint payloadType inlineJson casDigest)

theorem attempt_bind_eq_ok {α : Type} {stage : Stage} {f : Unit → Except (Nat × String) α} {a : α} :
    (c.attempt stage >>= f) = .ok a ↔ c.failure stage = none ∧ f () = .ok a := by
  unfold Call.attempt
  cases c.failure stage with
  | none =>
      exact (and_iff_right rfl).symm
  | some e =>
      exact iff_of_false (fun h => by cases h) (fun h => by cases h.1)

theorem transaction_eq_ok_iff {r : StepResponse × Storage N} :
    G.transaction c s = .ok r ↔ c.accepted = true ∧ r = (G.response c, G.commit c s) := by
  have hpure (x : StepResponse × Storage N) :
      (pure x : Except (Nat × String) (StepResponse × Storage N)) = .ok r ↔ r = x :=
    ⟨fun h => (Except.ok.inj h).symm, fun h => congrArg Except.ok h.symm⟩
  unfold transaction Call.accepted Call.stages response commit Call.edges
  -- With a parent there is one call more, for the edge.
  cases hparent : c.request.parentStepId with
  | none =>
      simp only [attempt_bind_eq_ok, pure_bind, hpure, List.all_cons, List.all_nil,
        Bool.and_eq_true, decide_eq_true_eq, Bool.and_true, and_assoc]
      rfl
  | some parentId =>
      simp only [attempt_bind_eq_ok, pure_bind, hpure, List.all_cons, List.all_nil,
        Bool.and_eq_true, decide_eq_true_eq, Bool.and_true, and_assoc]
      rfl

/-- An accepted call is committed as a whole. -/
theorem recordStep_of_accepted (h : c.accepted = true) :
    G.recordStep c s = (.ok (G.response c), G.commit c s) := by
  rw [recordStep, (G.transaction_eq_ok_iff).2 ⟨h, rfl⟩]

/-- A refused call leaves nothing behind. -/
theorem recordStep_of_not_accepted (h : c.accepted ≠ true) :
    ∃ e, G.recordStep c s = (.error e, s) := by
  cases hr : G.transaction c s with
  | error e =>
      exact ⟨e, by rw [recordStep, hr]⟩
  | ok r =>
      exact absurd ((G.transaction_eq_ok_iff).1 hr).1 h

theorem recordStep_fst_eq_ok_iff {response : StepResponse} :
    (G.recordStep c s).1 = .ok response ↔ c.accepted = true ∧ response = G.response c := by
  by_cases h : c.accepted = true
  · rw [G.recordStep_of_accepted h, Except.ok.injEq]
    exact ⟨fun heq => ⟨h, heq.symm⟩, fun heq => heq.2.symm⟩
  · rcases G.recordStep_of_not_accepted (s := s) h with ⟨e, he⟩
    rw [he]
    exact iff_of_false (fun heq => by cases heq) (fun heq => h heq.1)

/-! ## Whole runs -/

section Commit

variable (c s)

theorem edges_foldl_insertEdge (edges : List OrchestrationEdge) (s : Storage N) :
    (edges.foldl Storage.insertEdge s).steps = s.steps ∧
      (edges.foldl Storage.insertEdge s).edges = s.edges ++ edges ∧
      (edges.foldl Storage.insertEdge s).checkpoints = s.checkpoints ∧
      (edges.foldl Storage.insertEdge s).blobs = s.blobs := by
  induction edges generalizing s with
  | nil =>
      simp
  | cons edge edges ih =>
      rw [List.foldl_cons]
      simpa using ih (s.insertEdge edge)

@[simp] theorem steps_commit : (G.commit c s).steps = s.steps ++ [c.step] := by
  simp [commit, edges_foldl_insertEdge]

@[simp] theorem edges_commit : (G.commit c s).edges = s.edges ++ c.edges := by
  simp [commit, edges_foldl_insertEdge]

@[simp] theorem checkpoints_commit : (G.commit c s).checkpoints = s.checkpoints ++
    [c.checkpoint (G.offload c).1 (G.offload c).2.1 (G.offload c).2.2] := by
  simp [commit, edges_foldl_insertEdge]

@[simp] theorem blobs_commit : (G.commit c s).blobs = s.blobs := by
  simp [commit, edges_foldl_insertEdge]

end Commit

/-- Steps and edges are those of the accepted calls, in order. -/
theorem tables_of_calls (calls : List (Call N)) (s : Storage N) :
    (G.after s calls).steps = s.steps ++ (calls.filter Call.accepted).map Call.step ∧
      (G.after s calls).edges = s.edges ++ (calls.filter Call.accepted).flatMap Call.edges := by
  induction calls generalizing s with
  | nil =>
      simp [after]
  | cons c calls ih =>
      have hafter : G.after s (c :: calls) = G.after (G.recordStep c s).2 calls := rfl
      rw [hafter, (ih _).1, (ih _).2]
      by_cases h : c.accepted = true
      · rw [G.recordStep_of_accepted h, List.filter_cons_of_pos h]
        simp
      · rcases G.recordStep_of_not_accepted (s := s) h with ⟨e, he⟩
        rw [he, List.filter_cons_of_neg h]
        exact ⟨rfl, rfl⟩

/-- No call writes to the content store. -/
theorem blobs_after (calls : List (Call N)) (s : Storage N) : (G.after s calls).blobs = s.blobs := by
  induction calls generalizing s with
  | nil =>
      rfl
  | cons c calls ih =>
      have hafter : G.after s (c :: calls) = G.after (G.recordStep c s).2 calls := rfl
      rw [hafter, ih]
      by_cases h : c.accepted = true
      · rw [G.recordStep_of_accepted h]
        exact G.blobs_commit c s
      · rcases G.recordStep_of_not_accepted (s := s) h with ⟨e, he⟩
        rw [he]

end GatewayState

end DataGateway
end Aivcs
