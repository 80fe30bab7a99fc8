import Aivcs.Lib.Entries
import Aivcs.Planning.ExecutionDag

/-!
# Planning.Validate — what validation accepts

`DependsOn` is the dependency relation the plan spells out.  The counters of `validate` are those of the
multigraph that has an edge for each entry of a dependency list (`count_successors`), so
`Digraph.drain_spec` applies to it as it is.

* `validate_eq` — validation answers, and accepts exactly the plans whose dependencies are tasks and form
  no cycle.
-/

namespace Aivcs
namespace Planning

open Aivcs.Lib Relation

namespace ExecutionDag

/-! ## The relation -/

/-- The task lists the dependency. -/
def DependsOn (dag : ExecutionDag) (id dep : String) : Prop :=
  ∃ task, dag.tasks.lookup id = some task ∧ dep ∈ task.dependsOn

/-- Every dependency is a task. -/
def Closed (dag : ExecutionDag) : Prop :=
  ∀ id dep, dag.DependsOn id dep → dep ∈ dag.tasks

/-- What `validate` is for. -/
def Valid (dag : ExecutionDag) : Prop :=
  dag.Closed ∧ Digraph.Acyclic dag.DependsOn

variable (dag : ExecutionDag)

theorem mem_entries {id : String} {task : PlanTask} :
    (id, task) ∈ dag.entries ↔ dag.tasks.lookup id = some task :=
  HashMap.mem_entries

theorem map_fst_entries :
    dag.entries.map Prod.fst = (Iteration.sorted String).list dag.tasks.keys :=
  HashMap.map_fst_entries

theorem mem_dependencies {id dep : String} :
    (id, dep) ∈ dag.dependencies ↔ dag.DependsOn id dep := by
  simp only [dependencies, DependsOn, List.mem_flatMap, List.mem_map, Prod.mk.injEq, Prod.exists,
    mem_entries]
  constructor
  · rintro ⟨_, task, htask, _, hdep, rfl, rfl⟩
    exact ⟨task, htask, hdep⟩
  · rintro ⟨task, htask, hdep⟩
    exact ⟨id, task, htask, dep, hdep, rfl, rfl⟩

theorem firstMissing_eq_none_iff : dag.firstMissing = none ↔ dag.Closed := by
  simp only [firstMissing, List.findSome?_eq_none_iff, Option.map_eq_none_iff,
    List.find?_eq_none, decide_eq_true_eq, not_not, Closed, DependsOn]
  constructor
  · rintro h id dep ⟨task, htask, hdep⟩
    exact h (id, task) ((mem_entries dag).2 htask) dep hdep
  · rintro h ⟨id, task⟩ hmem dep hdep
    exact h id dep ⟨task, (mem_entries dag).1 hmem, hdep⟩

/-! ## The multigraph of the counters -/

/-- The tasks that name `dep`, as often as they do. -/
def successors (dep : String) : List String :=
  (dag.edges.lookup dep).getD []

theorem lookup_foldl_push (l : List (String × String)) (edges : HashMap String (List String))
    (dep : String) :
    ((l.foldl (fun edges x => edges.upsert x.2 [] (· ++ [x.1])) edges).lookup dep).getD [] =
      (edges.lookup dep).getD [] ++ (l.filter fun x => x.2 = dep).map Prod.fst := by
  induction l generalizing edges with
  | nil =>
      simp
  | cons x l ih =>
      rw [List.foldl_cons, ih, HashMap.lookup_upsert]
      by_cases hx : dep = x.2
      · subst hx
        simp
      · simp [hx, Ne.symm hx]

theorem successors_eq (dep : String) :
    dag.successors dep = (dag.dependencies.filter fun x => x.2 = dep).map Prod.fst := by
  simpa [successors, edges] using lookup_foldl_push dag.dependencies ∅ dep

theorem mem_successors {id dep : String} :
    id ∈ dag.successors dep ↔ dag.DependsOn id dep := by
  simp [successors_eq, ← mem_dependencies]

theorem count_successors (hclosed : dag.Closed) (id : String) :
    ∑ dep ∈ dag.tasks.keys, (dag.successors dep).count id =
      (dag.dependencies.map Prod.fst).count id := by
  simp only [successors_eq]
  apply Digraph.sum_count_targets
  rintro ⟨taskId, dep⟩ hmem
  exact Finmap.mem_keys.2 (hclosed taskId dep ((mem_dependencies dag).1 hmem))

theorem within_successors (hclosed : dag.Closed) :
    Digraph.Within dag.successors dag.tasks.keys where
  source := by
    intro dep id h
    exact Finmap.mem_keys.2 (hclosed id dep ((mem_successors dag).1 h))
  target := by
    intro dep id h
    rcases (mem_successors dag).1 h with ⟨task, htask, _⟩
    exact Finmap.mem_keys.2 (Finmap.mem_iff.2 ⟨task, htask⟩)

theorem map_fst_zeros : (dag.entries.map fun (id, _) => (id, (0 : Nat))).map Prod.fst =
    (Iteration.sorted String).list dag.tasks.keys := by
  rw [← map_fst_entries, List.map_map]
  rfl

theorem mem_tasks_of_mem_dependencies {id : String}
    (h : id ∈ dag.dependencies.map fun (taskId, _) => taskId) : id ∈ dag.tasks := by
  rcases List.mem_map.1 h with ⟨⟨taskId, dep⟩, hdep, rfl⟩
  rcases (mem_dependencies dag).1 hdep with ⟨task, htask, _⟩
  exact Finmap.mem_iff.2 ⟨task, htask⟩

/-- The counters are there and hold how often each task lists something. -/
theorem indegree_eq : ∃ indegree, dag.indegree = some indegree ∧
    (∀ id, id ∈ indegree ↔ id ∈ dag.tasks) ∧
    ∀ id ∈ dag.tasks, indegree.lookup id = some ((dag.dependencies.map Prod.fst).count id) := by
  have hmem : ∀ id, id ∈ HashMap.ofList (dag.entries.map fun (id, _) => (id, 0)) ↔
      id ∈ dag.tasks := by
    intro id
    rw [HashMap.mem_ofList, map_fst_zeros, Iteration.mem_list, Finmap.mem_keys]
  -- Only keys are counted up, so `get_mut(task_id).expect(..)` finds them.
  refine ⟨_, HashMap.tally?_eq _ _ fun id hid => (hmem id).2 (mem_tasks_of_mem_dependencies dag hid), ?_, ?_⟩
  · intro id
    rw [HashMap.mem_tally, hmem]
    constructor
    · rintro (h | h)
      · exact h
      · exact mem_tasks_of_mem_dependencies dag h
    · exact .inl
  · intro id hid
    have hzero : (HashMap.ofList (dag.entries.map fun (id, _) => (id, 0))).lookup id = some 0 := by
      rcases Finmap.mem_iff.1 hid with ⟨task, htask⟩
      have hentry : (id, 0) ∈ dag.entries.map fun (id, _) => (id, 0) :=
        List.mem_map.2 ⟨(id, task), (mem_entries dag).2 htask, rfl⟩
      exact HashMap.lookup_ofList ((map_fst_zeros dag).symm ▸ (Iteration.sorted String).nodup _) hentry
    rw [HashMap.lookup_tally _ _ (.inl ((hmem id).2 hid)), hzero]
    simp only [Option.getD_some, Nat.zero_add]

theorem visit_eq_drain (edges : HashMap String (List String)) (fuel : Nat)
    (indegree : Digraph.Counters String) (queue : List String) (visited : Nat) :
    visit edges fuel indegree queue visited =
      (Digraph.drain (fun id => (edges.lookup id).getD []) fuel indegree queue).map
        fun out => visited + out.length := by
  induction fuel generalizing indegree queue visited with
  | zero =>
      rfl
  | succ fuel ih =>
      cases queue with
      | nil =>
          rfl
      | cons node queue =>
          cases hnode : edges.lookup node with
          | none =>
              -- A task that nobody depends on has no entry in the map: no neighbours.
              simp only [visit, Digraph.drain, hnode, Option.getD_none, Digraph.relax, ih,
                Option.map_map, List.append_nil]
              congr 1
              ext out
              simp [Nat.add_comm, Nat.add_left_comm]
          | some neighbors =>
              cases hrelax : Digraph.relax indegree neighbors with
              | none =>
                  simp [visit, Digraph.drain, hnode, hrelax]
              | some r =>
                  simp only [visit, Digraph.drain, hnode, Option.getD_some, hrelax, ih,
                    Option.map_map]
                  congr 1
                  ext out
                  simp [Nat.add_comm, Nat.add_left_comm]

/-- An edge of the multigraph is a dependency the other way round. -/
theorem acyclic_successors_iff :
    Digraph.Acyclic (Digraph.Succ dag.successors) ↔ Digraph.Acyclic dag.DependsOn := by
  have hswap : Digraph.Succ dag.successors = Function.swap dag.DependsOn := by
    funext dep id
    exact propext (mem_successors dag)
  unfold Digraph.Acyclic
  rw [hswap]
  exact forall_congr' fun id => not_congr transGen_swap

/-- Validation answers, and accepts exactly the valid plans. -/
theorem validate_eq : ∃ r, dag.validate = some r ∧ (r = .ok () ↔ dag.Valid) := by
  cases hmissing : dag.firstMissing with
  | some e =>
      have hnot : ¬ dag.Closed := by
        rw [← firstMissing_eq_none_iff, hmissing]
        simp
      exact ⟨.error e, by simp [validate, hmissing], by simp [Valid, hnot]⟩
  | none =>
      have hclosed := (firstMissing_eq_none_iff dag).1 hmissing
      rcases dag.indegree_eq with ⟨indegree, hindegree, hmem, hcount⟩
      have hnodup : (roots indegree).Nodup := ((Iteration.sorted String).nodup _).filter _
      have hroots : ∀ id, id ∈ roots indegree ↔
          id ∈ dag.tasks.keys ∧ indegree.lookup id = some 0 := by
        intro id
        simp [roots, Iteration.mem_list, Finmap.mem_keys, hmem]
      have hdeg : ∀ id ∈ dag.tasks.keys,
          indegree.lookup id = some (∑ dep ∈ dag.tasks.keys, (dag.successors dep).count id) := by
        intro id hid
        rw [hcount id (Finmap.mem_keys.1 hid), dag.count_successors hclosed id]
      -- The counters start at the in-degrees of the multigraph, as the general result asks.
      rcases Digraph.drain_spec (dag.within_successors hclosed) hnodup hdeg hroots
        with ⟨out, hout, hiff⟩
      have hvisit : visit dag.edges (dag.tasks.keys.card + 1) indegree (roots indegree) 0 =
          some out.length := by
        calc
          visit dag.edges (dag.tasks.keys.card + 1) indegree (roots indegree) 0
              = (Digraph.drain dag.successors (dag.tasks.keys.card + 1) indegree
                  (roots indegree)).map fun out => 0 + out.length := visit_eq_drain _ _ _ _ _
          _ = some out.length := by simp [hout]
      rw [acyclic_successors_iff] at hiff
      by_cases hlen : out.length = dag.tasks.keys.card
      · exact ⟨.ok (), by simp [validate, hmissing, hindegree, hvisit, hlen],
          by simp [Valid, hclosed, hiff.1 hlen]⟩
      · exact ⟨.error .cycleDetected, by simp [validate, hmissing, hindegree, hvisit, hlen],
          by simp [Valid, ← hiff, hlen]⟩

theorem validate_eq_ok_iff : dag.validate = some (.ok ()) ↔ dag.Valid := by
  rcases dag.validate_eq with ⟨r, hr, hiff⟩
  rw [hr, Option.some.injEq, hiff]

end ExecutionDag

end Planning
end Aivcs
