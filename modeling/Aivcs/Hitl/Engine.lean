import Mathlib.Algebra.Group.Nat.Defs
import Aivcs.State.Types

/-!
# Hitl.Engine — approval checkpoints, votes and operator interventions

`hitl_controls`: a checkpoint holds a status; `submitVote` checks a vote against it, `evaluateCheckpoint`
resolves it from the votes and `applyIntervention` is the way of an operator into the same status.

The caller keeps the votes: it adds one when `submitVote` accepts it and writes the status an
evaluation returns.  `step` is that caller.

The label, the run and the explanation of a checkpoint, and all of an intervention but its action, are
not read by any of this and left out, as are the errors no function here returns.
-/

namespace Aivcs
namespace Hitl

open Aivcs.State

/-! ## Risk and status -/

inductive RiskTier where
  | low
  | medium
  | high
  | critical
  deriving DecidableEq

namespace RiskTier

def requiresApproval : RiskTier → Bool
  | .high | .critical => true
  | .low | .medium => false

def minApprovals : RiskTier → Nat
  | .low => 0
  | .medium => 0
  | .high => 1
  | .critical => 2

end RiskTier

inductive CheckpointStatus where
  | pending
  | approved
  | rejected (reason : String)
  | expired
  | paused
  deriving DecidableEq

namespace CheckpointStatus

def allowsProceed : CheckpointStatus → Bool
  | .approved => true
  | _ => false

def isTerminal : CheckpointStatus → Bool
  | .approved | .rejected _ | .expired => true
  | .pending | .paused => false

end CheckpointStatus

structure ApprovalCheckpoint where
  checkpointId : String
  riskTier : RiskTier
  createdAt : Timestamp
  expiresAt : Option Timestamp
  status : CheckpointStatus
  deriving DecidableEq

namespace ApprovalCheckpoint

/-- `chrono::Duration::seconds(s as i64)` in nanoseconds; a duration or a date out of range panics, and
there is no checkpoint then. -/
def timeout (seconds : UInt64) : Int :=
  Int.bmod seconds.toNat (2 ^ 64) * 1000000000

/-- A new checkpoint, with the identifier drawn for it. -/
def new (checkpointId : String) (riskTier : RiskTier) (timeoutSecs : Option UInt64)
    (now : Timestamp) : ApprovalCheckpoint :=
  { checkpointId := checkpointId
    riskTier := riskTier
    createdAt := now
    expiresAt := timeoutSecs.map fun s => now + timeout s
    status := .pending }

def isExpiredAt (checkpoint : ApprovalCheckpoint) (now : Timestamp) : Bool :=
  checkpoint.expiresAt.any fun exp => exp ≤ now

end ApprovalCheckpoint

/-! ## Votes and interventions -/

inductive VoteDecision where
  | approve
  | reject
  | requestChanges
  deriving DecidableEq

namespace VoteDecision

def isApproval (d : VoteDecision) : Bool :=
  d = .approve

def isBlocking (d : VoteDecision) : Bool :=
  d = .reject

end VoteDecision

structure ApprovalVote where
  voter : String
  checkpointId : String
  decision : VoteDecision
  comment : Option String
  deriving DecidableEq

inductive InterventionAction where
  | pause
  | edit (changeSummary : String)
  | continue
  | abort (reason : String)
  deriving DecidableEq

inductive HitlError where
  | expired (timeoutSecs : UInt64)
  | duplicateVote (voter checkpointId : String)
  | checkpointNotFound (message : String)
  | interventionFailed (message : String)
  deriving DecidableEq

/-! ## The engine -/

/-- `num_seconds() as u64` of the time a checkpoint had. -/
def timeoutSecs (checkpoint : ApprovalCheckpoint) : UInt64 :=
  match checkpoint.expiresAt with
  | some e => UInt64.ofInt (Int.tdiv (e - checkpoint.createdAt) 1000000000)
  | none => 0

/-- The answer, with the checkpoint after the call. -/
def submitVote (checkpoint : ApprovalCheckpoint) (vote : ApprovalVote)
    (existingVotes : List ApprovalVote) (now : Timestamp) :
    Except HitlError Unit × ApprovalCheckpoint :=
  if vote.checkpointId ≠ checkpoint.checkpointId then
    (.error (.checkpointNotFound vote.checkpointId), checkpoint)
  else if checkpoint.status.isTerminal then
    (.error (.checkpointNotFound (checkpoint.checkpointId ++ " (already " ++
      (if checkpoint.status = .expired then "expired" else "finalized") ++ ")")), checkpoint)
  else if checkpoint.isExpiredAt now then
    (.error (.expired (timeoutSecs checkpoint)), { checkpoint with status := .expired })
  else if existingVotes.any fun v => v.voter = vote.voter then
    (.error (.duplicateVote vote.voter checkpoint.checkpointId), checkpoint)
  else
    (.ok (), checkpoint)

/-- The votes that approve, counted in 32 bits. -/
def approvalCount (votes : List ApprovalVote) : Nat :=
  votes.countP (fun v => v.decision.isApproval) % 2 ^ 32

def evaluateCheckpoint (checkpoint : ApprovalCheckpoint) (votes : List ApprovalVote)
    (now : Timestamp) : Option CheckpointStatus :=
  if checkpoint.status.isTerminal then
    none
  else if checkpoint.isExpiredAt now then
    some .expired
  else
    -- One rejection blocks, however many approvals there are.
    match votes.find? fun v => v.decision.isBlocking with
    | some v => some (.rejected (v.comment.getD ("rejected by " ++ v.voter)))
    | none =>
        let required := checkpoint.riskTier.minApprovals
        if required ≤ approvalCount votes ∧ 0 < required then
          some .approved
        -- The tiers without a quorum are approved by the first evaluation.
        else if !checkpoint.riskTier.requiresApproval then
          some .approved
        else
          none

def applyIntervention (checkpoint : ApprovalCheckpoint) (action : InterventionAction) :
    Except HitlError Unit × ApprovalCheckpoint :=
  match action with
  | .pause => (.ok (), { checkpoint with status := .paused })
  | .continue =>
      if checkpoint.status ≠ .paused then
        (.error (.interventionFailed "can only continue from paused state"), checkpoint)
      else
        (.ok (), { checkpoint with status := .pending })
  | .abort reason => (.ok (), { checkpoint with status := .rejected ("aborted: " ++ reason) })
  | .edit _ =>
      -- "Edit keeps checkpoint paused — operator must explicitly continue."
      (.ok (), { checkpoint with status := .paused })

/-! ## The caller -/

/-- A checkpoint and the votes that were accepted for it. -/
structure Session where
  checkpoint : ApprovalCheckpoint
  votes : List ApprovalVote
  deriving DecidableEq

inductive HitlStep where
  | vote (vote : ApprovalVote) (now : Timestamp)
  | evaluate (now : Timestamp)
  | intervene (action : InterventionAction)
  deriving DecidableEq

namespace Session

def start (checkpointId : String) (riskTier : RiskTier) (timeoutSecs : Option UInt64)
    (now : Timestamp) : Session :=
  ⟨ApprovalCheckpoint.new checkpointId riskTier timeoutSecs now, []⟩

def status (s : Session) : CheckpointStatus :=
  s.checkpoint.status

def step (s : Session) : HitlStep → Session
  | .vote v now =>
      -- A refused vote may still have written the expiry.
      match submitVote s.checkpoint v s.votes now with
      | (.ok (), checkpoint) => ⟨checkpoint, s.votes ++ [v]⟩
      | (.error _, checkpoint) => ⟨checkpoint, s.votes⟩
  | .evaluate now =>
      match evaluateCheckpoint s.checkpoint s.votes now with
      | some status => ⟨{ s.checkpoint with status := status }, s.votes⟩
      | none => s
  | .intervene action => ⟨(applyIntervention s.checkpoint action).2, s.votes⟩

end Session

end Hitl
end Aivcs
