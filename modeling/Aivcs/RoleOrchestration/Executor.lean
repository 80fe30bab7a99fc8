import Aivcs.Lib.Entries
import Aivcs.Lib.Pool
import Aivcs.RoleOrchestration.Router
import Aivcs.RoleOrchestration.RunLedgers

/-!
# RoleOrchestration.Executor — roles executed in parallel

`execute_roles_parallel` spawns a task for each role.  A task waits for a permit of the semaphore, looks at
the flag that a failure may have raised, creates a run, calls the executor, ends the run in the ledger and
pushes its result; the verdict is computed from the results that are there when all tasks have ended.

The tasks are a `Lib.Pool`: `Batch.turn` is what one of them does between two points where another may come
in, and a schedule says whose turn it is.
-/

namespace Aivcs
namespace RoleOrchestration

open Aivcs.Lib Aivcs.State

/-! ## Outputs, results and errors -/

inductive RoleOutput where
  | plan (taskBreakdown : List String) (estimatedSteps : UInt32) (requiredStatePointers : List String)
  | code (patchDigest : String) (filesModified : List String) (notes : Option String)
  | review (approved : Bool) (comments : List String) (requiresFix : Bool)
  | testReport (passed : Bool) (totalCases : UInt32) (failedCases : List String)
      (diagnosticDigest : Option String)
  | fix (patchDigest : String) (resolvedIssues : List String)
  deriving DecidableEq

/-- The text `Display` gives. -/
def RoleError.toString : RoleError → String
  | unauthorizedHandoff role sender => "role " ++ role ++ " does not accept handoffs from " ++ sender
  | invalidHandoffToken reason => "handoff token integrity check failed: " ++ reason
  | emptyDecomposition role => "task decomposition produced no subtasks for role " ++ role
  | conflictDetected description => "role conflict: " ++ description
  | parallelExecutionFailed detail => "parallel role execution error: " ++ detail
  | domain error => "domain error: " ++ error

abbrev RoleResult (α : Type) : Type := Except RoleError α

/-- The outcome of a single role run. -/
structure RoleRunResult where
  role : AgentRole
  runId : RunId
  output : RoleOutput
  success : Bool
  deriving DecidableEq

/-- The result of a role that failed, with the text of the error among the issues. -/
def RoleRunResult.failed (role : AgentRole) (runId : RunId) (issue : String) : RoleRunResult where
  role := role
  runId := runId
  output := .fix "" [issue]
  success := false

def verdict (results : List RoleRunResult) : RoleResult (List RoleRunResult) :=
  if !results.isEmpty && results.all (fun r => !r.success) then
    .error (.parallelExecutionFailed "all parallel role runs failed")
  else
    .ok results

structure ParallelRoleConfig where
  /-- Maximum number of concurrent role tasks. -/
  maxConcurrent : Nat
  /-- Abort remaining tasks as soon as one fails. -/
  failFast : Bool
  deriving DecidableEq

def ParallelRoleConfig.default : ParallelRoleConfig where
  maxConcurrent := 4
  failFast := false

/-- `Semaphore::MAX_PERMITS` on a 64-bit machine; `Semaphore::new` panics on more. -/
def maxPermits : Nat := (2 ^ 64 - 1) / 8

/-! ## The tasks -/

/-- The arguments of `execute_roles_parallel`, with the identifiers drawn on the way. -/
structure Batch (σ : Type) where
  ops : LedgerOps σ
  parentRunId : String
  roles : List AgentRole
  specDigest : ContentDigest
  config : ParallelRoleConfig
  roleExecutor : AgentRole → RunId → RoleResult RoleOutput
  /-- the identifier `create_run` draws for the `i`-th role -/
  runIds : Nat → RunId
  /-- the identifier of the result of the `i`-th role when `create_run` fails -/
  spareIds : Nat → RunId

/-- Where a task stands. -/
inductive Phase where
  /-- waiting for a permit -/
  | waiting
  /-- with a permit, about to look at the flag -/
  | admitted
  /-- about to create its run -/
  | starting
  /-- about to call the executor -/
  | created (runId : RunId)
  | executing (runId : RunId)
  /-- the executor has answered, the ledger does not know yet -/
  | executed (runId : RunId) (answer : RoleResult RoleOutput)
  /-- about to raise the flag, if it is to be raised -/
  | failing (result : RoleRunResult)
  /-- about to push its result -/
  | publishing (result : RoleRunResult)
  /-- about to drop its permit -/
  | leaving
  | finished

def Phase.isFinished : Phase → Bool
  | .finished => true
  | _ => false

structure RoleTask where
  role : AgentRole
  phase : Phase

/-- What the tasks share; `calls` are the calls the executor has received. -/
structure World (σ : Type) where
  permits : Nat
  failFlag : Bool
  ledger : σ
  calls : List (AgentRole × RunId)
  results : List RoleRunResult

namespace Batch

variable {σ : Type} (b : Batch σ)

def metadata (role : AgentRole) : RunMetadata Json where
  gitSha := none
  agentName := "role:" ++ role.display
  tags := .obj [("parent_run_id", .str b.parentRunId), ("role", .str role.display)]
  evaluation := .default

/-- What the `i`-th task does up to the next point where another task may come in; `none` when it has to
wait or has ended. -/
def turn (i : Nat) (t : RoleTask) (w : World σ) : Option (RoleTask × World σ) :=
  match t.phase with
  | .waiting =>
      -- The semaphore is never closed; its queue is left to the schedule.
      if 0 < w.permits then
        some ({ t with phase := .admitted }, { w with permits := w.permits - 1 })
      else
        none
  | .admitted =>
      if w.failFlag then
        some ({ t with phase := .leaving }, w)
      else
        some ({ t with phase := .starting }, w)
  | .starting =>
      match b.ops.createRun (b.runIds i) b.specDigest (b.metadata t.role) w.ledger with
      | (.ok runId, ledger) => some ({ t with phase := .created runId }, { w with ledger := ledger })
      | (.error e, ledger) =>
          let result := RoleRunResult.failed t.role (b.spareIds i) ("failed to create run: " ++ e.toString)
          some ({ t with phase := .failing result }, { w with ledger := ledger })
  | .created runId =>
      some ({ t with phase := .executing runId }, { w with calls := w.calls ++ [(t.role, runId)] })
  | .executing runId =>
      some ({ t with phase := .executed runId (b.roleExecutor t.role runId) }, w)
  | .executed runId (.ok output) =>
      -- What the ledger answers is ignored, here and below.
      let ended := b.ops.completeRun runId ⟨1, none, 0, true⟩ w.ledger
      some ({ t with phase := .publishing ⟨t.role, runId, output, true⟩ }, { w with ledger := ended.2 })
  | .executed runId (.error e) =>
      let ended := b.ops.failRun runId ⟨0, none, 0, false⟩ w.ledger
      some ({ t with phase := .failing (.failed t.role runId e.toString) }, { w with ledger := ended.2 })
  | .failing result =>
      -- The flag has a receiver as long as the function runs, so it is raised.
      some ({ t with phase := .publishing result },
        { w with failFlag := w.failFlag || b.config.failFast })
  | .publishing result =>
      some ({ t with phase := .leaving }, { w with results := w.results ++ [result] })
  | .leaving =>
      some ({ t with phase := .finished }, { w with permits := w.permits + 1 })
  | .finished => none

/-- The tasks when they are spawned on a ledger. -/
def start (ledger : σ) : Pool RoleTask (World σ) where
  tasks := b.roles.map fun role => ⟨role, .waiting⟩
  shared := ⟨b.config.maxConcurrent, false, ledger, [], []⟩

/-- Nothing is spawned when the semaphore cannot be made. -/
def spawn (ledger : σ) : Option (Pool RoleTask (World σ)) :=
  if b.config.maxConcurrent ≤ maxPermits then some (b.start ledger) else none

/-- What the function returns when its tasks take their turns as the schedule says, with the world it
leaves; nothing when it panics or tasks are left. -/
def executeRolesParallel (ledger : σ) (schedule : List Nat) :
    Option (RoleResult (List RoleRunResult) × World σ) :=
  (b.spawn ledger).bind fun pool =>
    let ended := after (Pool.step b.turn) pool schedule
    if ended.tasks.all (fun t => t.phase.isFinished) = true then
      some (verdict ended.shared.results, ended.shared)
    else
      none

/-! ## What a batch is to report -/

/-- The result that belongs to a call of the executor. -/
def resultOf (c : AgentRole × RunId) : RoleRunResult :=
  match b.roleExecutor c.1 c.2 with
  | .ok output => ⟨c.1, c.2, output, true⟩
  | .error e => .failed c.1 c.2 e.toString

theorem role_resultOf (c : AgentRole × RunId) : (b.resultOf c).role = c.1 := by
  unfold resultOf
  cases b.roleExecutor c.1 c.2 <;> rfl

theorem runId_resultOf (c : AgentRole × RunId) : (b.resultOf c).runId = c.2 := by
  unfold resultOf
  cases b.roleExecutor c.1 c.2 <;> rfl

/-- The function fails exactly when the executor was called for every role and failed for every role;
otherwise the results are those of the calls, each of a run of its own that is completed exactly when the
executor succeeded.  Without `fail_fast` every role is executed. -/
structure Reported (answer : RoleResult (List RoleRunResult)) (w : World σ) : Prop where
  error_iff : (∃ e, answer = .error e) ↔ ∀ i role, b.roles[i]? = some role →
    (role, b.runIds i) ∈ w.calls ∧ ∃ e, b.roleExecutor role (b.runIds i) = .error e
  calls : w.calls.Nodup ∧ ∀ c ∈ w.calls, ∃ i, b.roles[i]? = some c.1 ∧ c.2 = b.runIds i
  results : ∀ results, answer = .ok results →
    results.Perm (w.calls.map b.resultOf) ∧ (results.map RoleRunResult.runId).Nodup ∧
    ∀ r ∈ results, (r.success = true ↔ ∃ output, b.roleExecutor r.role r.runId = .ok output) ∧
      (b.ops.status w.ledger r.runId = some .completed ↔ r.success = true)
  everyRole : b.config.failFast = false → ∀ i role, b.roles[i]? = some role →
    (role, b.runIds i) ∈ w.calls

/-- Under every schedule the function can come to its end, and what it returns then is as it is to be. -/
def Reports (ledger : σ) : Prop :=
  ∀ schedule, (∃ rest answer, b.executeRolesParallel ledger (schedule ++ rest) = some answer) ∧
    ∀ answer w, b.executeRolesParallel ledger schedule = some (answer, w) → b.Reported answer w

end Batch

end RoleOrchestration
end Aivcs
