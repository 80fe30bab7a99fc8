import Aivcs.Lib.Json
import Aivcs.Lib.Proc
import Aivcs.MultiRepo.Graph
import Aivcs.State.Types

/-!
# MultiRepo.Sequencer — coordinated releases in dependency order

`ReleaseSequencer` of `multi_repo/sequencer.rs`.  `build_plan` lists the nodes of the graph in
topological order and marks the ones nobody asked for; `execute_plan` is a program over the ledger,
the releaser and the clock, whose answers are whatever those give.

An error of a releaser is its displayed text, which is all the sequencer reads of it.  The statuses
`execute_plan` writes into its own copy of the plan are not returned and not kept here.
-/

namespace Aivcs
namespace MultiRepo

open Aivcs.Lib
open Aivcs.State

inductive RepoReleaseStatus where
  | pending
  | inProgress
  | succeeded (runId : String)
  | failed (reason : String)
  /-- skipped because an upstream dependency failed -/
  | skipped
  deriving DecidableEq

structure SequenceItem where
  repoId : String
  versionLabel : String
  specDigest : String
  promotedBy : String
  status : RepoReleaseStatus
  deriving DecidableEq

structure SequencePlan where
  planId : String
  items : List SequenceItem
  originatingRunId : String
  deriving DecidableEq

structure SequenceOutcome where
  planId : String
  succeeded : List String
  failed : List (String × String)
  skipped : List String
  deriving DecidableEq

/-- A release descriptor `(repo_id, version_label, spec_digest, promoted_by)`. -/
abbrev Release : Type := String × String × String × String

/-! ## The plan -/

/-- The requested releases by repo; a later descriptor replaces an earlier one. -/
def releaseMap (releases : List Release) : HashMap String (String × String × String) :=
  HashMap.ofList releases

/-- The item for a node, pending when a release was requested for it. -/
def sequenceItem (releases : HashMap String (String × String × String)) (node : RepoNode) :
    SequenceItem :=
  match releases.lookup node.repoId with
  | some (versionLabel, specDigest, promotedBy) =>
      ⟨node.repoId, versionLabel, specDigest, promotedBy, .pending⟩
  | none => ⟨node.repoId, "skipped", "", "", .skipped⟩

/-- `build_plan`; `uuid` is the one drawn for the plan id. -/
def buildPlan (g : RepoDependencyGraph) (order : HashOrder) (uuid : String)
    (releases : List Release) (originatingRunId : String) :
    Option (Except MultiRepoError SequencePlan) :=
  match g.topologicalOrder order with
  | none => none
  | some (.error e) => some (.error e)
  | some (.ok topo) => some (.ok {
      planId := "seq-" ++ String.ofList ((uuid.toList.splitOn '-').headD ['x'])
      items := topo.map (sequenceItem (releaseMap releases))
      originatingRunId := originatingRunId })

/-! ## Execution -/

/-- What `execute_plan` asks of the outside. -/
inductive SequencerOp where
  | createRun (spec : ContentDigest) (metadata : RunMetadata Json)
  | appendEvent (runId : RunId) (event : RunEvent Json)
  | completeRun (runId : RunId) (summary : RunSummary)
  | failRun (runId : RunId) (summary : RunSummary)
  | release (repoId versionLabel specDigest promotedBy : String)
  | now

def SequencerOp.Ans : SequencerOp → Type
  | .createRun _ _ => Except StorageError RunId
  | .appendEvent _ _ => Except StorageError Unit
  | .completeRun _ _ => Except StorageError Unit
  | .failRun _ _ => Except StorageError Unit
  | .release _ _ _ _ => Except String String
  | .now => Timestamp

abbrev SequencerProc (α : Type) : Type :=
  Proc SequencerOp SequencerOp.Ans α

def createRun (spec : ContentDigest) (metadata : RunMetadata Json) :
    SequencerProc (Except StorageError RunId) :=
  Proc.perform (SequencerOp.createRun spec metadata)

def appendEvent (runId : RunId) (event : RunEvent Json) :
    SequencerProc (Except StorageError Unit) :=
  Proc.perform (SequencerOp.appendEvent runId event)

def completeRun (runId : RunId) (summary : RunSummary) : SequencerProc (Except StorageError Unit) :=
  Proc.perform (SequencerOp.completeRun runId summary)

def failRun (runId : RunId) (summary : RunSummary) : SequencerProc (Except StorageError Unit) :=
  Proc.perform (SequencerOp.failRun runId summary)

def release (repoId versionLabel specDigest promotedBy : String) :
    SequencerProc (Except String String) :=
  Proc.perform (SequencerOp.release repoId versionLabel specDigest promotedBy)

def now : SequencerProc Timestamp :=
  Proc.perform SequencerOp.now

/-- The variables of the loop. -/
structure Progress where
  succeeded : List String
  failed : List (String × String)
  skipped : List String
  skipSet : Finset String
  seq : Nat

def Progress.start : Progress :=
  ⟨[], [], [], ∅, 1⟩

/-- Read the clock and append an event with a payload of two text fields. -/
def appendNodeEvent (runId : RunId) (seq : Nat) (kind repoId : String) (field : String × String) :
    SequencerProc (Except StorageError Unit) := do
  let timestamp ← now
  appendEvent runId {
    seq := seq
    kind := kind
    payload := .obj [("node_id", .str repoId), (field.1, .str field.2)]
    timestamp := timestamp }

/-- The body of the loop.  `none`: the walk over the dependents panics or does not end. -/
def executeItem (g : RepoDependencyGraph) (orders : String → HashOrder) (runId : RunId)
    (item : SequenceItem) (st : Progress) :
    SequencerProc (Option (Except MultiRepoError Progress)) := do
  if item.status = .skipped ∨ item.repoId ∈ st.skipSet then
    return some (.ok { st with skipped := st.skipped ++ [item.repoId] })
  else
    match ← appendNodeEvent runId st.seq "NodeEntered" item.repoId
        ("version", item.versionLabel) with
    | .error e => return some (.error (.storage e.toString))
    | .ok () =>
        match ← release item.repoId item.versionLabel item.specDigest item.promotedBy with
        | .ok released =>
            match ← appendNodeEvent runId (st.seq + 1) "NodeExited" item.repoId
                ("run_id", released) with
            | .error e => return some (.error (.storage e.toString))
            | .ok () =>
                return some (.ok { st with
                  succeeded := st.succeeded ++ [item.repoId]
                  seq := st.seq + 2 })
        | .error reason =>
            match ← appendNodeEvent runId (st.seq + 1) "NodeFailed" item.repoId
                ("error", reason) with
            | .error e => return some (.error (.storage e.toString))
            | .ok () =>
                match g.transitiveDependentsOf (orders item.repoId) item.repoId with
                | none => return none
                | some found =>
                    -- an error of the lookup is ignored
                    let dependents := match found with
                      | .ok ids => ids.toFinset
                      | .error _ => ∅
                    return some (.ok { st with
                      failed := st.failed ++ [(item.repoId, reason)]
                      skipSet := st.skipSet ∪ dependents
                      seq := st.seq + 2 })

def executeItems (g : RepoDependencyGraph) (orders : String → HashOrder) (runId : RunId) :
    List SequenceItem → Progress → SequencerProc (Option (Except MultiRepoError Progress))
  | [], st => return some (.ok st)
  | item :: items, st => do
      match ← executeItem g orders runId item st with
      | some (.ok st) => executeItems g orders runId items st
      | other => return other

/-- `execute_plan`; `digest` is the hash of the text that stands for the originating run. -/
def executePlan (g : RepoDependencyGraph) (orders : String → HashOrder)
    (digest : String → ContentDigest) (plan : SequencePlan) :
    SequencerProc (Option (Except MultiRepoError SequenceOutcome)) := do
  let metadata : RunMetadata Json := {
    gitSha := none
    agentName := "release-sequencer"
    tags := .obj [("plan_id", .str plan.planId)]
    evaluation := EvaluationMetadata.default }
  match ← createRun (digest ("sequence:" ++ plan.originatingRunId)) metadata with
  | .error e => return some (.error (.storage e.toString))
  | .ok runId =>
      match ← executeItems g orders runId plan.items Progress.start with
      | none => return none
      | some (.error e) => return some (.error e)
      | some (.ok st) =>
          let ok : Bool := st.failed.isEmpty
          let summary : RunSummary := ⟨st.seq - 1, none, 0, ok⟩
          match ← (if ok then completeRun runId summary else failRun runId summary) with
          | .error e => return some (.error (.storage e.toString))
          | .ok () => return some (.ok ⟨plan.planId, st.succeeded, st.failed, st.skipped⟩)

end MultiRepo
end Aivcs
