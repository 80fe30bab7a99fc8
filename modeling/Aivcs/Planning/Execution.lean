import Aivcs.Lib.Run
import Aivcs.Planning.Scheduling

/-!
# Planning.Execution — a plan with tasks in progress

The caller of the scheduler that starts what it is handed and completes it later.  `Execution.Sound` is
what every such execution keeps; the limit on tasks in progress is not part of it.

* `execution_respects_iff` — an execution never has more tasks in progress than allowed exactly when the
  scheduler is asked only while nothing runs or while all that is ready fits beside what runs:
  `max_parallel` bounds a single answer, and what is in progress is not counted.
-/

namespace Aivcs
namespace Planning

open Aivcs.Lib

/-! ## Executions -/

/-- A plan that is being carried out, and all the tasks the scheduler has handed out. -/
structure Execution where
  dag : ExecutionDag
  returned : List String

inductive ExecutionStep where
  | schedule
  | complete (id : String)
  deriving DecidableEq

namespace Execution

def step (constraints : SchedulerConstraints) (s : Execution) : ExecutionStep → Execution
  | .schedule =>
      match scheduleNextReadyTasks s.dag constraints with
      | some (.ok ids) => ⟨s.dag.markAll .inProgress ids, s.returned ++ ids⟩
      | _ => s
  | .complete id =>
      if s.dag.status id = some .inProgress then ⟨s.dag.mark .done id, s.returned⟩ else s

/-- The number of tasks in progress. -/
def running (s : Execution) : Nat :=
  (s.dag.withStatus .inProgress).card

/-- No task is started before all it depends on is done. -/
def DependenciesFirst (s : Execution) : Prop :=
  ∀ id, s.dag.status id = some .inProgress ∨ s.dag.status id = some .done →
    ∀ dep, s.dag.DependsOn id dep → s.dag.status dep = some .done

/-- What every execution keeps: what was handed out was pending then, and is not any more. -/
structure Sound (s : Execution) : Prop where
  valid : s.dag.Valid
  dependencies : s.DependenciesFirst
  nodup : s.returned.Nodup
  started : ∀ id ∈ s.returned,
    s.dag.status id = some .inProgress ∨ s.dag.status id = some .done

/-- The step asks the scheduler only while nothing runs, or while all that is ready fits beside what
runs. -/
def Fits (constraints : SchedulerConstraints) (s : Execution) (i : ExecutionStep) : Prop :=
  i = .schedule → s.running = 0 ∨
    s.running + (readyTasks s.dag constraints).length ≤ constraints.maxParallel

variable {constraints : SchedulerConstraints} {s : Execution} {id : String}

theorem step_schedule (h : s.Sound) :
    s.step constraints .schedule =
      ⟨s.dag.markAll .inProgress ((readyTasks s.dag constraints).take constraints.maxParallel),
        s.returned ++ (readyTasks s.dag constraints).take constraints.maxParallel⟩ := by
  simp [step, scheduleNextReadyTasks_eq h.valid]

/-- The statuses after the scheduler was asked. -/
theorem status_step_schedule (h : s.Sound) (id : String) :
    (s.step constraints .schedule).dag.status id =
      if id ∈ (readyTasks s.dag constraints).take constraints.maxParallel then some .inProgress
      else s.dag.status id := by
  rw [step_schedule h, ExecutionDag.status_markAll]
  by_cases hid : id ∈ (readyTasks s.dag constraints).take constraints.maxParallel
  · have hmem := ExecutionDag.mem_of_status (mem_readyTasks.1 (List.mem_of_mem_take hid)).1
    simp [hid, hmem]
  · simp [hid]

theorem Sound.schedule (h : s.Sound) : (s.step constraints .schedule).Sound := by
  have hready : ∀ id ∈ (readyTasks s.dag constraints).take constraints.maxParallel,
      s.dag.status id = some .pending ∧
        ∀ dep, s.dag.DependsOn id dep → s.dag.status dep = some .done := by
    intro id hid
    have hparts := mem_readyTasks.1 (List.mem_of_mem_take hid)
    exact ⟨hparts.1, hparts.2.2⟩
  have hsame : ExecutionDag.SamePlan s.dag (s.step constraints .schedule).dag := by
    rw [step_schedule h]
    exact ExecutionDag.samePlan_markAll _
  -- A task that is done was not pending, so it is not handed out.
  have hdone : ∀ dep, s.dag.status dep = some .done →
      (s.step constraints .schedule).dag.status dep = some .done := by
    intro dep hdep
    rw [status_step_schedule h, if_neg, hdep]
    intro hmem
    simp [(hready dep hmem).1] at hdep
  refine ⟨hsame.valid h.valid, ?_, ?_, ?_⟩
  · intro id hid dep hdep
    rw [hsame.dependsOn_iff] at hdep
    rw [status_step_schedule h] at hid
    split at hid
    · next hmem =>
      exact hdone dep ((hready id hmem).2 dep hdep)
    · exact hdone dep (h.dependencies id hid dep hdep)
  · rw [step_schedule h]
    refine List.nodup_append.2 ⟨h.nodup, nodup_readyTasks.sublist (List.take_sublist _ _), ?_⟩
    -- What was handed out before is in progress or done, and what is handed out now is pending.
    rintro id hold _ hnew rfl
    have hpending := (hready id hnew).1
    rcases h.started id hold with hstatus | hstatus
    · simp [hpending] at hstatus
    · simp [hpending] at hstatus
  · intro id hid
    rw [status_step_schedule h]
    split
    · exact .inl rfl
    · next hnew =>
      rw [step_schedule h] at hid
      exact h.started id ((List.mem_append.1 hid).resolve_right hnew)

theorem Sound.complete (h : s.Sound) (id : String) :
    (s.step constraints (.complete id)).Sound := by
  by_cases hid : s.dag.status id = some .inProgress
  · have hsame : ExecutionDag.SamePlan s.dag (s.dag.mark .done id) := ExecutionDag.samePlan_mark
    have hstatus : ∀ k, (s.dag.mark .done id).status k =
        if k = id then some .done else s.dag.status k := by
      intro k
      simp [ExecutionDag.status_mark, ExecutionDag.mem_of_status hid]
    simp only [step, hid, if_true]
    refine ⟨hsame.valid h.valid, ?_, h.nodup, ?_⟩
    · intro k hk dep hdep
      have hbefore : s.dag.status k = some .inProgress ∨ s.dag.status k = some .done := by
        simp only [hstatus k] at hk
        split at hk
        · next heq =>
          exact .inl (heq ▸ hid)
        · exact hk
      -- The dependencies were done already, and completing another task leaves them so.
      have hdone := h.dependencies k hbefore dep ((hsame.dependsOn_iff k dep).1 hdep)
      simp only [hstatus dep, hdone, ite_self]
    · intro k hk
      simp only [hstatus k]
      split
      · exact .inr rfl
      · exact h.started k hk
  · simpa [step, hid] using h

theorem Sound.step (h : s.Sound) (i : ExecutionStep) : (s.step constraints i).Sound := by
  cases i with
  | schedule =>
      exact h.schedule
  | complete id =>
      exact h.complete id

/-- The tasks handed out run beside the ones that ran before. -/
theorem running_schedule (h : s.Sound) :
    (s.step constraints .schedule).running =
      s.running + min constraints.maxParallel (readyTasks s.dag constraints).length := by
  have hnodup : ((readyTasks s.dag constraints).take constraints.maxParallel).Nodup :=
    nodup_readyTasks.sublist (List.take_sublist _ _)
  have hunion : (s.step constraints .schedule).dag.withStatus .inProgress =
      s.dag.withStatus .inProgress ∪
        ((readyTasks s.dag constraints).take constraints.maxParallel).toFinset := by
    ext id
    rw [Finset.mem_union, ExecutionDag.mem_withStatus, ExecutionDag.mem_withStatus,
      List.mem_toFinset, status_step_schedule h]
    split
    · next hmem =>
      simp [hmem]
    · next hmem =>
      simp [hmem]
  -- A ready task is pending, so none of them is in progress already.
  have hdisjoint : Disjoint (s.dag.withStatus .inProgress)
      ((readyTasks s.dag constraints).take constraints.maxParallel).toFinset := by
    rw [Finset.disjoint_left]
    intro id hrun hnew
    have hpending := (mem_readyTasks.1 (List.mem_of_mem_take (List.mem_toFinset.1 hnew))).1
    simp [ExecutionDag.mem_withStatus.1 hrun] at hpending
  rw [running, hunion, Finset.card_union_of_disjoint hdisjoint, List.toFinset_card_of_nodup hnodup,
    List.length_take]
  rfl

theorem running_complete : (s.step constraints (.complete id)).running ≤ s.running := by
  by_cases hid : s.dag.status id = some .inProgress
  · apply Finset.card_le_card
    intro k hk
    simp only [step, hid, if_true, ExecutionDag.mem_withStatus, ExecutionDag.status_mark] at hk
    split at hk
    · cases hk
    · exact ExecutionDag.mem_withStatus.2 hk
  · simp [step, hid]

/-- The limit holds after a step exactly when the step fits. -/
theorem running_step_le_iff (h : s.Sound) (hle : s.running ≤ constraints.maxParallel)
    (i : ExecutionStep) :
    (s.step constraints i).running ≤ constraints.maxParallel ↔ s.Fits constraints i := by
  cases i with
  | schedule =>
      -- The answer is cut at `max_parallel`, so it fits alone; beside others only if all of it does.
      rw [running_schedule h, Fits]
      simp only [true_implies]
      omega
  | complete id =>
      exact iff_of_true (running_complete.trans hle) (by simp [Fits])

end Execution

section Limit

variable {dag : ExecutionDag}

theorem sound_of_pending (hvalidate : dag.validate = some (.ok ()))
    (hpending : ∀ id task, dag.tasks.lookup id = some task → task.status = .pending) :
    Execution.Sound ⟨dag, []⟩ := by
  refine ⟨(ExecutionDag.validate_eq_ok_iff dag).1 hvalidate, ?_, List.nodup_nil, by simp⟩
  intro id hid
  rcases hlookup : dag.tasks.lookup id with _ | task
  · simp [ExecutionDag.status, hlookup] at hid
  · simp [ExecutionDag.status, hlookup, hpending id task hlookup] at hid

theorem running_of_pending
    (hpending : ∀ id task, dag.tasks.lookup id = some task → task.status = .pending) :
    Execution.running ⟨dag, []⟩ = 0 := by
  rw [Execution.running, Finset.card_eq_zero, Finset.eq_empty_iff_forall_notMem]
  intro id hid
  rcases Option.map_eq_some_iff.1 (ExecutionDag.mem_withStatus.1 hid) with ⟨task, htask, hstatus⟩
  simp [hpending id task htask] at hstatus

end Limit

/-- An execution of an accepted plan starts no task before its dependencies are done and none twice; and
it never has more tasks in progress than allowed if and only if each call of the scheduler fits. -/
theorem execution_respects_iff (dag : ExecutionDag) (constraints : SchedulerConstraints)
    (l : List ExecutionStep) (hvalidate : dag.validate = some (.ok ()))
    (hpending : ∀ id task, dag.tasks.lookup id = some task → task.status = .pending) :
    Always (Execution.step constraints) (fun s => s.DependenciesFirst ∧ s.returned.Nodup)
      ⟨dag, []⟩ l ∧
    (Always (Execution.step constraints)
        (fun s => s.running ≤ constraints.maxParallel ∧ s.DependenciesFirst ∧ s.returned.Nodup)
        ⟨dag, []⟩ l ↔
      EachStep (Execution.step constraints) (Execution.Fits constraints) ⟨dag, []⟩ l) := by
  have hsound : Always (Execution.step constraints) Execution.Sound ⟨dag, []⟩ l :=
    always_of_step (fun _ i h => h.step i) (sound_of_pending hvalidate hpending) l
  refine ⟨fun pre hpre => ⟨(hsound pre hpre).dependencies, (hsound pre hpre).nodup⟩, ?_⟩
  -- Soundness holds of every run; only the limit depends on the steps.
  have hboth : Always (Execution.step constraints)
        (fun s => s.Sound ∧ s.running ≤ constraints.maxParallel) ⟨dag, []⟩ l ↔
      EachStep (Execution.step constraints) (Execution.Fits constraints) ⟨dag, []⟩ l := by
    apply always_iff_eachStep
    · intro s i _ hs
      rw [← Execution.running_step_le_iff hs.1 hs.2 i]
      exact and_iff_right (hs.1.step i)
    · exact ⟨sound_of_pending hvalidate hpending, by simp [running_of_pending hpending]⟩
  rw [← hboth]
  constructor
  · intro h pre hpre
    exact ⟨hsound pre hpre, (h pre hpre).1⟩
  · intro h pre hpre
    exact ⟨(h pre hpre).2, (h pre hpre).1.dependencies, (h pre hpre).1.nodup⟩

/-- Two tasks that depend on nothing. -/
def twoTasks : ExecutionDag :=
  { goalId := "goal"
    objective := "ship"
    tasks := HashMap.ofList [("a", .pending "a" [] 0), ("b", .pending "b" [] 0)] }

theorem twoTasks_pending {id : String} {task : PlanTask}
    (h : twoTasks.tasks.lookup id = some task) : task.status = .pending :=
  pending_of_lookup (by decide) (by decide) h

theorem twoTasks_respects :
    twoTasks.validate = some (.ok ()) ∧
    (Always (Execution.step ⟨1, ∅⟩)
        (fun s => s.running ≤ 1 ∧ s.DependenciesFirst ∧ s.returned.Nodup)
        ⟨twoTasks, []⟩ [.schedule, .complete "a", .schedule] ↔
      EachStep (Execution.step ⟨1, ∅⟩) (Execution.Fits ⟨1, ∅⟩) ⟨twoTasks, []⟩
        [.schedule, .complete "a", .schedule]) :=
  ⟨by decide +kernel, (execution_respects_iff twoTasks ⟨1, ∅⟩ [.schedule, .complete "a", .schedule]
    (by decide +kernel) fun _ _ h => twoTasks_pending h).2⟩

/-- Two calls in a row put two tasks in progress where one is allowed. -/
theorem twoTasks_exceed :
    ¬ ∀ (dag : ExecutionDag) (constraints : SchedulerConstraints) (l : List ExecutionStep),
      dag.validate = some (.ok ()) →
      (∀ id task, dag.tasks.lookup id = some task → task.status = .pending) →
      Always (Execution.step constraints)
        (fun s => s.running ≤ constraints.maxParallel ∧ s.DependenciesFirst ∧ s.returned.Nodup)
        ⟨dag, []⟩ l := by
  intro h
  have hend := (h twoTasks ⟨1, ∅⟩ [.schedule, .schedule] (by decide +kernel)
    (fun _ _ h => twoTasks_pending h)).final.1
  exact absurd hend (by decide +kernel)

end Planning
end Aivcs
