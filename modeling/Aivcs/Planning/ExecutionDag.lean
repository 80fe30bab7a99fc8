import Mathlib.Data.String.Basic
import Aivcs.Lib.MultiKahn
import Aivcs.State.Types
import Aivcs.Lib.Entries

/-!
# Planning.ExecutionDag — plans, their validation and the scheduler

`planning_autonomy`: a goal is decomposed into tasks that name the tasks they depend on, `validate` looks
for a dependency that is not a task and for a cycle, and `scheduleNextReadyTasks` hands out the pending
tasks whose dependencies are done.

A `BTreeMap` is a finite map walked in the order of its keys.  A `get_mut` that must succeed and a counter
that must not pass zero are `none` where they do not, as is a loop that has not finished.

The confidence of a task is left out: nothing here reads it.

The tasks of all epics go into one map under their ids, where a task replaces an earlier one of the same
id; `validate` sees the map only.  A decomposition keeps all tasks exactly when no id occurs twice
(`decompose_keeps_tasks_iff`).
-/

namespace Aivcs
namespace Planning

open Aivcs.Lib Aivcs.State

/-! ## Plans -/

structure TaskPlan where
  id : String
  title : String
  dependsOn : List String
  estimateHours : UInt32
  deriving DecidableEq

structure EpicPlan where
  id : String
  title : String
  tasks : List TaskPlan
  deriving DecidableEq

structure GoalPlan where
  id : String
  objective : String
  epics : List EpicPlan
  deriving DecidableEq

inductive PlanTaskStatus where
  | pending
  | inProgress
  | done
  | blocked (reason : String)
  | failed (reason : String)
  deriving DecidableEq

structure PlanTask where
  id : String
  title : String
  dependsOn : List String
  estimateHours : UInt32
  status : PlanTaskStatus
  updatedAt : Timestamp
  deriving DecidableEq

def PlanTask.pending (id : String) (dependsOn : List String) (updatedAt : Timestamp) : PlanTask :=
  { id := id
    title := id
    dependsOn := dependsOn
    estimateHours := 1
    status := .pending
    updatedAt := updatedAt }

structure ExecutionDag where
  goalId : String
  objective : String
  tasks : HashMap String PlanTask

inductive PlanningError where
  | missingDependency (taskId missingDependency : String)
  | cycleDetected
  deriving DecidableEq

structure SchedulerConstraints where
  maxParallel : Nat
  blockedTasks : Finset String
  deriving DecidableEq

namespace ExecutionDag

/-! ## Validation -/

/-- The tasks in the order of their keys. -/
def entries (dag : ExecutionDag) : List (String × PlanTask) :=
  ((Iteration.sorted String).list dag.tasks.keys).filterMap fun id =>
    (dag.tasks.lookup id).map fun task => (id, task)

/-- The first dependency that is not a task. -/
def firstMissing (dag : ExecutionDag) : Option PlanningError :=
  dag.entries.findSome? fun (taskId, task) =>
    (task.dependsOn.find? fun dep => dep ∉ dag.tasks).map fun dep => .missingDependency taskId dep

/-- Every task with each of its dependencies, in the order the loops reach them. -/
def dependencies (dag : ExecutionDag) : List (String × String) :=
  dag.entries.flatMap fun (taskId, task) => task.dependsOn.map fun dep => (taskId, dep)

/-- The tasks that name a dependency, as often as they do. -/
def edges (dag : ExecutionDag) : HashMap String (List String) :=
  dag.dependencies.foldl (fun edges x => edges.upsert x.2 [] (· ++ [x.1])) ∅

def indegree (dag : ExecutionDag) : Option (Digraph.Counters String) :=
  HashMap.tally? (HashMap.ofList (dag.entries.map fun (id, _) => (id, 0)))
    (dag.dependencies.map fun (taskId, _) => taskId)

/-- The tasks whose counter is zero. -/
def roots (indegree : Digraph.Counters String) : List String :=
  ((Iteration.sorted String).list indegree.keys).filter fun id => indegree.lookup id = some 0

/-- The number of nodes that leave the queue. -/
def visit (edges : HashMap String (List String)) :
    Nat → Digraph.Counters String → List String → Nat → Option Nat
  | 0, _, _, _ => none
  | _ + 1, _, [], visited => some visited
  | fuel + 1, indegree, node :: queue, visited =>
      match edges.lookup node with
      | none => visit edges fuel indegree queue (visited + 1)
      | some neighbors =>
          match Digraph.relax indegree neighbors with
          | none => none
          | some (indegree, next) => visit edges fuel indegree (queue ++ next) (visited + 1)

def validate (dag : ExecutionDag) : Option (Except PlanningError Unit) :=
  match dag.firstMissing with
  | some e => some (.error e)
  | none => do
      let indegree ← dag.indegree
      -- A node is queued when its counter reaches zero, once at most: a round for each suffices.
      let visited ← visit dag.edges (dag.tasks.keys.card + 1) indegree (roots indegree) 0
      if visited ≠ dag.tasks.keys.card then
        some (.error .cycleDetected)
      else
        some (.ok ())

end ExecutionDag

/-! ## The scheduler -/

/-- `decompose_goal_to_dag`, at the time `now`; a task of a repeated id replaces the earlier one. -/
def decomposeGoalToDag (goal : GoalPlan) (now : Timestamp) :
    Option (Except PlanningError ExecutionDag) :=
  let tasks := goal.epics.flatMap fun epic => epic.tasks.map fun t =>
    (t.id, ({ id := t.id
              title := t.title
              dependsOn := t.dependsOn
              estimateHours := t.estimateHours
              status := .pending
              updatedAt := now } : PlanTask))
  let dag : ExecutionDag :=
    { goalId := goal.id
      objective := goal.objective
      tasks := HashMap.ofList tasks }
  dag.validate.map fun r => r.map fun _ => dag

/-- The task waits for nothing: it is pending, not blocked, and all its dependencies are done. -/
def isReady (dag : ExecutionDag) (constraints : SchedulerConstraints) (id : String)
    (task : PlanTask) : Bool :=
  decide (task.status = .pending) && decide (id ∉ constraints.blockedTasks) &&
    task.dependsOn.all fun dep => (dag.tasks.lookup dep).map PlanTask.status = some .done

/-- All tasks that are ready, in order. -/
def readyTasks (dag : ExecutionDag) (constraints : SchedulerConstraints) : List String :=
  let ready := (dag.entries.filter fun (id, task) => isReady dag constraints id task).map Prod.fst
  ready.insertionSort (· ≤ ·)

def scheduleNextReadyTasks (dag : ExecutionDag) (constraints : SchedulerConstraints) :
    Option (Except PlanningError (List String)) :=
  dag.validate.map fun r => r.map fun _ =>
    if constraints.maxParallel = 0 then []
    else (readyTasks dag constraints).take constraints.maxParallel

/-! ## What becomes of the tasks of a goal -/

/-- The tasks of all epics, in order. -/
def GoalPlan.tasks (goal : GoalPlan) : List TaskPlan :=
  goal.epics.flatMap EpicPlan.tasks

/-- What a task becomes. -/
def TaskPlan.start (t : TaskPlan) (now : Timestamp) : PlanTask :=
  { id := t.id
    title := t.title
    dependsOn := t.dependsOn
    estimateHours := t.estimateHours
    status := .pending
    updatedAt := now }

/-- There are as many tasks as were planned, and every planned task is there as planned. -/
def KeepsTasks (goal : GoalPlan) (now : Timestamp) (dag : ExecutionDag) : Prop :=
  dag.tasks.keys.card = goal.tasks.length ∧
    ∀ t ∈ goal.tasks, dag.tasks.lookup t.id = some (t.start now)

variable {goal : GoalPlan} {now : Timestamp} {dag : ExecutionDag}

theorem tasks_of_decompose (h : decomposeGoalToDag goal now = some (.ok dag)) :
    dag.tasks = HashMap.ofList (goal.tasks.map fun t => (t.id, t.start now)) := by
  have hentries : (goal.tasks.map fun t => (t.id, t.start now)) =
      goal.epics.flatMap fun epic => epic.tasks.map fun t => (t.id, t.start now) := by
    rw [GoalPlan.tasks, List.map_flatMap]
  rw [hentries]
  rw [decomposeGoalToDag] at h
  obtain ⟨r, _, hr⟩ := Option.map_eq_some_iff.1 h
  cases r with
  | error e =>
      cases hr
  | ok _ =>
      cases hr
      rfl

/-- A decomposition loses no task exactly when the ids of all tasks are distinct. -/
theorem decompose_keeps_tasks_iff (goal : GoalPlan) (now : Timestamp) (dag : ExecutionDag)
    (h : decomposeGoalToDag goal now = some (.ok dag)) :
    KeepsTasks goal now dag ↔ (goal.tasks.map TaskPlan.id).Nodup := by
  have hkeys : (goal.tasks.map fun t => (t.id, t.start now)).map Prod.fst = goal.tasks.map TaskPlan.id := by
    rw [List.map_map]
    rfl
  have hcard : dag.tasks.keys.card = goal.tasks.length ↔ (goal.tasks.map TaskPlan.id).Nodup := by
    rw [tasks_of_decompose h, ← hkeys, ← HashMap.card_keys_ofList, List.length_map]
  constructor
  · rintro ⟨hall, _⟩
    exact hcard.1 hall
  · intro hnodup
    refine ⟨hcard.2 hnodup, ?_⟩
    intro t ht
    rw [← hkeys] at hnodup
    rw [tasks_of_decompose h]
    exact HashMap.lookup_ofList hnodup (List.mem_map_of_mem (f := fun t => (t.id, t.start now)) ht)

/-- An epic of one task that depends on nothing. -/
def soloEpic (id taskId title : String) : EpicPlan :=
  { id := id, title := id, tasks := [{ id := taskId, title := title, dependsOn := [], estimateHours := 1 }] }

theorem decompose_keeps_tasks_iff_solo :
    ∃ dag, decomposeGoalToDag ⟨"g", "ship", [soloEpic "e1" "a" "build", soloEpic "e2" "b" "test"]⟩ 0 =
        some (.ok dag) ∧
      KeepsTasks ⟨"g", "ship", [soloEpic "e1" "a" "build", soloEpic "e2" "b" "test"]⟩ 0 dag :=
  ⟨_, rfl, (decompose_keeps_tasks_iff _ 0 _ rfl).2 (by decide)⟩

/-- Two epics with a task `"setup"` each: one of the tasks is gone. -/
theorem decompose_loses_a_task :
    ¬ ∀ goal now dag, decomposeGoalToDag goal now = some (.ok dag) → KeepsTasks goal now dag := by
  intro h
  have hkeeps := h ⟨"g", "ship", [soloEpic "e1" "setup" "set up CI", soloEpic "e2" "setup" "set up docs"]⟩
    0 _ rfl
  exact absurd hkeeps.1 (by decide)

end Planning
end Aivcs
