import Aivcs.State.Types

/-!
# MultiRepo.Health — CI results, the health of an objective and the rollout gate

`CIResult::new` reduces the stages of a run to one status, `CIHealthView::overall_status` the statuses of
the repositories.  Both ask for the statuses that stop a rollout one by one and pass what is left: a
cancelled repository, and at the level of stages anything that has not failed.
-/

namespace Aivcs
namespace MultiRepo

open State

inductive CIStatus where
  | pending
  | running
  | passed
  | failed
  | cancelled
  deriving DecidableEq

/-- `format!("{:?}", status)`. -/
def CIStatus.debug : CIStatus → String
  | .pending => "Pending"
  | .running => "Running"
  | .passed => "Passed"
  | .failed => "Failed"
  | .cancelled => "Cancelled"

/-! ## The result of a run -/

structure CIStageResult where
  stage : String
  command : String
  status : CIStatus
  durationMs : UInt64
  cacheHit : Bool
  diagnosticsCount : UInt32
  deriving DecidableEq

structure CIResult where
  runId : String
  overallStatus : CIStatus
  stages : List CIStageResult
  startedAt : Timestamp
  finishedAt : Option Timestamp
  totalDurationMs : Nat
  passed : UInt32
  failed : UInt32
  deriving DecidableEq

/-- `filter(..).count() as u32`. -/
def countStatus (status : CIStatus) (stages : List CIStageResult) : UInt32 :=
  UInt32.ofNat (stages.countP fun s => s.status = status)

def CIResult.new (runId : String) (stages : List CIStageResult) (startedAt : Timestamp)
    (finishedAt : Option Timestamp) : CIResult where
  runId := runId
  overallStatus := if countStatus .failed stages > 0 then .failed else .passed
  stages := stages
  startedAt := startedAt
  finishedAt := finishedAt
  totalDurationMs := match finishedAt with
    | some finished => ((finished - startedAt).tdiv 1000000).toNat
    | none => 0
  passed := countStatus .passed stages
  failed := countStatus .failed stages

/-! ## The health of an objective -/

structure RepoCIStatus where
  repo : String
  status : CIStatus
  runId : Option String
  updatedAt : Timestamp
  deriving DecidableEq

structure CIHealthView where
  objectiveId : String
  repos : List RepoCIStatus
  computedAt : Timestamp
  deriving DecidableEq

namespace CIHealthView

def overallStatus (view : CIHealthView) : CIStatus :=
  if view.repos.isEmpty then .pending
  else if view.repos.any (fun r => r.status = .failed) then .failed
  else if view.repos.any (fun r => r.status = .running) ∨
      view.repos.any (fun r => r.status = .pending) then .running
  else .passed

def rolloutBlocked (view : CIHealthView) : Bool :=
  view.overallStatus ≠ .passed

def canRollout (view : CIHealthView) : Bool :=
  view.overallStatus = .passed

end CIHealthView

namespace MultiRepoOrchestrator

def consolidateHealth (objectiveId : String) (computedAt : Timestamp) (repos : List RepoCIStatus) :
    CIHealthView :=
  ⟨objectiveId, repos, computedAt⟩

def rolloutAllowed (health : CIHealthView) : Bool :=
  health.canRollout

/-- The error is the text of an `AivcsError::MultiRepo`. -/
def checkRolloutGate (health : CIHealthView) : Except String Unit :=
  if health.rolloutBlocked then
    .error ("rollout blocked: overall CI status is " ++ health.overallStatus.debug)
  else
    .ok ()

end MultiRepoOrchestrator

/-! ## What the statuses are made of -/

open MultiRepoOrchestrator

theorem CIStatus.settled_iff {status : CIStatus} :
    status = .passed ∨ status = .cancelled ↔
      status ≠ .failed ∧ status ≠ .running ∧ status ≠ .pending := by
  cases status <;> simp

/-- What is asked for one by one, and what is left. -/
theorem overallStatus_eq_passed_iff (view : CIHealthView) :
    view.overallStatus = .passed ↔ view.repos ≠ [] ∧
      ∀ r ∈ view.repos, r.status = .passed ∨ r.status = .cancelled := by
  have hasked : view.overallStatus = .passed ↔ view.repos ≠ [] ∧
      (¬ ∃ r ∈ view.repos, r.status = .failed) ∧
        ¬ ((∃ r ∈ view.repos, r.status = .running) ∨ ∃ r ∈ view.repos, r.status = .pending) := by
    simp [CIHealthView.overallStatus, ite_eq_iff]
  simp only [CIStatus.settled_iff]
  rw [hasked]
  refine and_congr_right fun _ => ?_
  constructor
  · rintro ⟨hfailed, hwaiting⟩ r hr
    exact ⟨fun hs => hfailed ⟨r, hr, hs⟩, fun hs => hwaiting (Or.inl ⟨r, hr, hs⟩),
      fun hs => hwaiting (Or.inr ⟨r, hr, hs⟩)⟩
  · intro hall
    refine ⟨?_, ?_⟩
    · rintro ⟨r, hr, hs⟩
      exact (hall r hr).1 hs
    · rintro (⟨r, hr, hs⟩ | ⟨r, hr, hs⟩)
      · exact (hall r hr).2.1 hs
      · exact (hall r hr).2.2 hs

theorem rolloutAllowed_iff (view : CIHealthView) :
    rolloutAllowed view = true ↔ view.overallStatus = .passed := by
  simp [rolloutAllowed, CIHealthView.canRollout]

theorem checkRolloutGate_ok_iff (view : CIHealthView) :
    checkRolloutGate view = .ok () ↔ view.overallStatus = .passed := by
  by_cases h : view.overallStatus = .passed
  · simp [checkRolloutGate, CIHealthView.rolloutBlocked, h]
  · simp [checkRolloutGate, CIHealthView.rolloutBlocked, h]

/-! ## Where the gate and the results go wrong -/

/-- The gate lets an objective through exactly when it has repositories and every one passed. -/
def GateExact (view : CIHealthView) : Prop :=
  (rolloutAllowed view = true ↔ view.repos ≠ [] ∧ ∀ r ∈ view.repos, r.status = .passed) ∧
    (checkRolloutGate view = .ok () ↔ view.repos ≠ [] ∧ ∀ r ∈ view.repos, r.status = .passed)

theorem gateExact_iff (view : CIHealthView) :
    GateExact view ↔ (∀ r ∈ view.repos, r.status ≠ .cancelled) ∨
      ∃ r ∈ view.repos, r.status ≠ .passed ∧ r.status ≠ .cancelled := by
  unfold GateExact
  rw [rolloutAllowed_iff, checkRolloutGate_ok_iff, and_self, overallStatus_eq_passed_iff]
  constructor
  · intro h
    by_cases hpassed : view.repos ≠ [] ∧ ∀ r ∈ view.repos, r.status = .passed ∨ r.status = .cancelled
    · left
      intro r hr hcancelled
      have hstatus := (h.1 hpassed).2 r hr
      rw [hcancelled] at hstatus
      cases hstatus
    · by_cases hnil : view.repos = []
      · left
        simp [hnil]
      · right
        by_contra hnone
        refine hpassed ⟨hnil, fun r hr => ?_⟩
        by_contra hr'
        exact hnone ⟨r, hr, not_or.1 hr'⟩
  · rintro (hnone | ⟨r, hr, hpassed, hcancelled⟩)
    · refine and_congr_right fun _ => forall₂_congr fun r hr => ?_
      exact or_iff_left (hnone r hr)
    · refine iff_of_false ?_ ?_
      · rintro ⟨-, hall⟩
        exact (hall r hr).elim hpassed hcancelled
      · rintro ⟨-, hall⟩
        exact hpassed (hall r hr)

/-- The stages of a run in one repository, and its times. -/
structure StageRun where
  repo : String
  runId : String
  stages : List CIStageResult
  startedAt : Timestamp
  finishedAt : Option Timestamp

/-- The result of the run. -/
def StageRun.result (run : StageRun) : CIResult :=
  CIResult.new run.runId run.stages run.startedAt run.finishedAt

/-- The status of the repository that is reported with the result. -/
def StageRun.report (updatedAt : Timestamp) (run : StageRun) : RepoCIStatus :=
  ⟨run.repo, run.result.overallStatus, some run.runId, updatedAt⟩

/-- A run has failed unless no stage failed, or so many that their count has wrapped around to zero. -/
theorem overallStatus_result (run : StageRun) :
    (run.result.overallStatus = .passed ↔ countStatus .failed run.stages = 0) ∧
      (run.result.overallStatus = .passed ∨ run.result.overallStatus = .failed) := by
  have hresult : run.result.overallStatus
      = if countStatus .failed run.stages > 0 then .failed else .passed := rfl
  have hpos : countStatus .failed run.stages > 0 ↔ countStatus .failed run.stages ≠ 0 := by
    rw [gt_iff_lt, UInt32.pos_iff_ne_zero]
  rw [hresult]
  by_cases h : countStatus .failed run.stages = 0
  · rw [if_neg (fun hgt => hpos.1 hgt h)]
    exact ⟨iff_of_true rfl h, Or.inl rfl⟩
  · rw [if_pos (hpos.2 h)]
    exact ⟨iff_of_false (by simp) h, Or.inr rfl⟩

/-- A run is passed only if all its stages are. -/
def ResultExact (run : StageRun) : Prop :=
  run.result.overallStatus = .passed → ∀ s ∈ run.stages, s.status = .passed

theorem resultExact_iff (run : StageRun) :
    ResultExact run ↔ countStatus .failed run.stages ≠ 0 ∨ ∀ s ∈ run.stages, s.status = .passed := by
  rw [ResultExact, (overallStatus_result run).1, imp_iff_not_or]

/-- The gate over the results of runs. -/
def runsAllowed (objectiveId : String) (now : Timestamp) (runs : List StageRun) : Bool :=
  rolloutAllowed (consolidateHealth objectiveId now (runs.map (StageRun.report now)))

theorem runsAllowed_iff (objectiveId : String) (now : Timestamp) (runs : List StageRun) :
    runsAllowed objectiveId now runs = true ↔
      runs ≠ [] ∧ ∀ run ∈ runs, countStatus .failed run.stages = 0 := by
  have hview : (consolidateHealth objectiveId now (runs.map (StageRun.report now))).repos
      = runs.map (StageRun.report now) := rfl
  rw [runsAllowed, rolloutAllowed_iff, overallStatus_eq_passed_iff, hview]
  refine and_congr (by simp) ?_
  rw [List.forall_mem_map]
  refine forall₂_congr fun run _ => ?_
  -- No run is cancelled.
  rw [← (overallStatus_result run).1]
  refine or_iff_left fun hcancelled => ?_
  have hcases := (overallStatus_result run).2
  have hreport : (run.report now).status = run.result.overallStatus := rfl
  rw [← hreport, hcancelled] at hcases
  rcases hcases with h | h <;> cases h

/-- The gate is exact unless a repository is cancelled while all others passed; a run is passed only if all
its stages are unless none of them counts as failed and one is not passed; and a rollout gated on such
results passes over no stage unless no run has one that counts as failed and some stage is not passed. -/
theorem rolloutGate_iff (objectiveId : String) (now : Timestamp) (repos : List RepoCIStatus)
    (run : StageRun) (runs : List StageRun) :
    (GateExact (consolidateHealth objectiveId now repos) ↔
        (∀ r ∈ repos, r.status ≠ .cancelled) ∨
          ∃ r ∈ repos, r.status ≠ .passed ∧ r.status ≠ .cancelled) ∧
      (ResultExact run ↔
        countStatus .failed run.stages ≠ 0 ∨ ∀ s ∈ run.stages, s.status = .passed) ∧
      ((runsAllowed objectiveId now runs = true →
          ∀ run ∈ runs, ∀ s ∈ run.stages, s.status = .passed) ↔
        (∃ run ∈ runs, countStatus .failed run.stages ≠ 0) ∨
          ∀ run ∈ runs, ∀ s ∈ run.stages, s.status = .passed) := by
  refine ⟨gateExact_iff (consolidateHealth objectiveId now repos), resultExact_iff run, ?_⟩
  rw [runsAllowed_iff]
  constructor
  · intro h
    by_cases hfailed : ∃ run ∈ runs, countStatus .failed run.stages ≠ 0
    · exact Or.inl hfailed
    · right
      intro run hrun
      refine h ⟨List.ne_nil_of_mem hrun, fun run hrun => ?_⟩ run hrun
      by_contra hne
      exact hfailed ⟨run, hrun, hne⟩
  · rintro (⟨run, hrun, hne⟩ | hall) ⟨-, hzero⟩
    · exact absurd (hzero run hrun) hne
    · exact hall

/-- One repository, whose run was cancelled. -/
def cancelledOnly : List RepoCIStatus :=
  [⟨"org/a", .cancelled, none, 0⟩]

/-- A run whose only stage is still running. -/
def unfinished : StageRun :=
  ⟨"org/a", "run", [⟨"test", "cargo test", .running, 0, false, 0⟩], 0, none⟩

/-- A cancelled repository is let through, and so is an unfinished run. -/
theorem rollout_not_gated :
    ¬ GateExact (consolidateHealth "release-1" 0 cancelledOnly) ∧ ¬ ResultExact unfinished ∧
      runsAllowed "release-1" 0 [unfinished] = true := by
  refine ⟨fun h => ?_, fun h => ?_, by decide⟩
  · exact absurd (h.1.1 (by decide)).2 (by decide)
  · exact absurd (h (by decide)) (by decide)

end MultiRepo
end Aivcs
