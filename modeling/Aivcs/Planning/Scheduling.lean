import Aivcs.Planning.Validate

/-!
# Planning.Scheduling — a plan carried out in rounds

`mark` writes the status of a task; nothing else of a plan ever changes, so what `validate` says stays as
it is.  `mem_readyTasks` says what the scheduler hands out in terms of statuses, and `round` is the caller
that marks what it is handed as done at once.

* `validate_progress` — validation is exact, and an accepted plan is carried out in at most as many rounds
  as it has tasks.
-/

namespace Aivcs
namespace Planning

open Aivcs.Lib

namespace ExecutionDag

/-! ## Statuses -/

def status (dag : ExecutionDag) (id : String) : Option PlanTaskStatus :=
  (dag.tasks.lookup id).map PlanTask.status

def mark (status : PlanTaskStatus) (dag : ExecutionDag) (id : String) : ExecutionDag :=
  match dag.tasks.lookup id with
  | some task => { dag with tasks := dag.tasks.insert id { task with status := status } }
  | none => dag

def markAll (status : PlanTaskStatus) (dag : ExecutionDag) (ids : List String) : ExecutionDag :=
  ids.foldl (mark status) dag

/-- The tasks of one status. -/
def withStatus (dag : ExecutionDag) (status : PlanTaskStatus) : Finset String :=
  dag.tasks.keys.filter fun id => dag.status id = some status

/-- The same tasks with the same dependencies. -/
structure SamePlan (dag dag' : ExecutionDag) : Prop where
  keys_eq : dag'.tasks.keys = dag.tasks.keys
  dependsOn_iff : ∀ id dep, dag'.DependsOn id dep ↔ dag.DependsOn id dep

section Mark

variable {dag dag' dag'' : ExecutionDag} {id : String} {st : PlanTaskStatus}

theorem SamePlan.refl : SamePlan dag dag :=
  ⟨rfl, fun _ _ => Iff.rfl⟩

theorem SamePlan.trans (h : SamePlan dag dag') (h' : SamePlan dag' dag'') : SamePlan dag dag'' :=
  ⟨h'.keys_eq.trans h.keys_eq, fun id dep => (h'.dependsOn_iff id dep).trans (h.dependsOn_iff id dep)⟩

theorem SamePlan.mem_iff (h : SamePlan dag dag') {id : String} :
    id ∈ dag'.tasks ↔ id ∈ dag.tasks := by
  rw [← Finmap.mem_keys, h.keys_eq, Finmap.mem_keys]

theorem SamePlan.valid (h : SamePlan dag dag') (hvalid : dag.Valid) : dag'.Valid := by
  have hrel : dag'.DependsOn = dag.DependsOn := by
    funext id dep
    exact propext (h.dependsOn_iff id dep)
  refine ⟨?_, hrel ▸ hvalid.2⟩
  intro id dep hdep
  exact h.mem_iff.2 (hvalid.1 id dep ((h.dependsOn_iff id dep).1 hdep))

theorem status_isSome_iff : (dag.status id).isSome ↔ id ∈ dag.tasks := by
  simp [status, Finmap.lookup_isSome]

theorem mem_of_status (h : dag.status id = some st) : id ∈ dag.tasks :=
  status_isSome_iff.1 (by simp [h])

theorem mem_withStatus : id ∈ dag.withStatus st ↔ dag.status id = some st := by
  simp only [withStatus, Finset.mem_filter, Finmap.mem_keys, and_iff_right_iff_imp]
  exact mem_of_status

theorem samePlan_mark : SamePlan dag (dag.mark st id) := by
  cases htask : dag.tasks.lookup id with
  | none =>
      simp only [mark, htask]
      exact SamePlan.refl
  | some task =>
      have hmem : id ∈ dag.tasks := Finmap.mem_iff.2 ⟨task, htask⟩
      simp only [mark, htask]
      refine ⟨?_, ?_⟩
      · ext k
        simp only [Finmap.mem_keys, Finmap.mem_insert]
        constructor
        · rintro (rfl | h)
          · exact hmem
          · exact h
        · exact .inr
      · intro k dep
        simp only [DependsOn, HashMap.lookup_insert_apply]
        by_cases hk : k = id
        · subst hk
          simp [htask]
        · simp [hk]

theorem status_mark (k : String) :
    (dag.mark st id).status k =
      if k = id ∧ id ∈ dag.tasks then some st else dag.status k := by
  cases htask : dag.tasks.lookup id with
  | none =>
      have hmem : id ∉ dag.tasks := Finmap.lookup_eq_none.1 htask
      simp [mark, htask, hmem]
  | some task =>
      have hmem : id ∈ dag.tasks := Finmap.mem_iff.2 ⟨task, htask⟩
      simp only [mark, htask, status, HashMap.lookup_insert_apply]
      by_cases hk : k = id
      · simp [hk, hmem]
      · simp [hk]

theorem samePlan_markAll (ids : List String) : SamePlan dag (dag.markAll st ids) := by
  induction ids generalizing dag with
  | nil =>
      exact SamePlan.refl
  | cons id ids ih =>
      exact samePlan_mark.trans ih

theorem status_markAll (ids : List String) (k : String) :
    (dag.markAll st ids).status k =
      if k ∈ ids ∧ k ∈ dag.tasks then some st else dag.status k := by
  induction ids generalizing dag with
  | nil =>
      simp [markAll]
  | cons id ids ih =>
      have hstep : dag.markAll st (id :: ids) = (dag.mark st id).markAll st ids := rfl
      rw [hstep, ih]
      simp only [samePlan_mark.mem_iff, status_mark, List.mem_cons]
      by_cases hk : k = id
      · subst hk
        by_cases hmem : k ∈ dag.tasks
        · simp [hmem]
        · simp [hmem]
      · simp [hk]

end Mark

end ExecutionDag

/-! ## What is handed out -/

section Ready

variable {dag : ExecutionDag} {constraints : SchedulerConstraints} {id : String}

theorem mem_readyTasks :
    id ∈ readyTasks dag constraints ↔
      dag.status id = some .pending ∧ id ∉ constraints.blockedTasks ∧
        ∀ dep, dag.DependsOn id dep → dag.status dep = some .done := by
  simp only [readyTasks, List.mem_insertionSort, List.mem_map, List.mem_filter, Prod.exists,
    ExecutionDag.mem_entries, isReady, Bool.and_eq_true, decide_eq_true_eq, List.all_eq_true,
    ExecutionDag.status, ExecutionDag.DependsOn]
  constructor
  · rintro ⟨_, task, ⟨htask, ⟨hpending, hfree⟩, hdeps⟩, rfl⟩
    refine ⟨by simp [htask, hpending], hfree, ?_⟩
    rintro dep ⟨task', htask', hdep⟩
    obtain rfl : task = task' := by simpa [htask] using htask'
    exact hdeps dep hdep
  · rintro ⟨hpending, hfree, hdeps⟩
    rcases Option.map_eq_some_iff.1 hpending with ⟨task, htask, hstatus⟩
    exact ⟨id, task, ⟨htask, ⟨hstatus, hfree⟩, fun dep hdep => hdeps dep ⟨task, htask, hdep⟩⟩, rfl⟩

theorem nodup_readyTasks : (readyTasks dag constraints).Nodup := by
  have hkeys : (dag.entries.map Prod.fst).Nodup := by
    rw [ExecutionDag.map_fst_entries]
    exact (Iteration.sorted String).nodup _
  exact (List.perm_insertionSort _ _).nodup_iff.2 (hkeys.sublist (List.filter_sublist.map _))

theorem scheduleNextReadyTasks_eq (hvalid : dag.Valid) :
    scheduleNextReadyTasks dag constraints =
      some (.ok ((readyTasks dag constraints).take constraints.maxParallel)) := by
  rw [scheduleNextReadyTasks, (ExecutionDag.validate_eq_ok_iff dag).2 hvalid]
  by_cases hmax : constraints.maxParallel = 0
  · simp [hmax, Except.map]
  · simp [hmax, Except.map]

end Ready

/-! ## In rounds -/

/-- Ask the scheduler and mark what it answers as done. -/
def round (dag : ExecutionDag) (constraints : SchedulerConstraints) : ExecutionDag :=
  match scheduleNextReadyTasks dag constraints with
  | some (.ok ids) => dag.markAll .done ids
  | _ => dag

/-- Nothing is in progress, blocked or failed. -/
def PendingOrDone (dag : ExecutionDag) : Prop :=
  ∀ id ∈ dag.tasks, dag.status id = some .pending ∨ dag.status id = some .done

/-- The constraints hold no task back. -/
def Unconstrained (constraints : SchedulerConstraints) : Prop :=
  1 ≤ constraints.maxParallel ∧ constraints.blockedTasks = ∅

section Rounds

variable {dag : ExecutionDag} {constraints : SchedulerConstraints}

/-- While a task of a valid plan is pending, one is ready: else all would be done, each after what it
depends on. -/
theorem readyTasks_ne_nil (hvalid : dag.Valid) (hstatus : PendingOrDone dag)
    (hfree : constraints.blockedTasks = ∅) {id : String} (hid : dag.status id = some .pending) :
    readyTasks dag constraints ≠ [] := by
  intro hnil
  have hacyclic : Digraph.Acyclic (Function.swap dag.DependsOn) := by
    intro v hv
    exact hvalid.2 v (Relation.transGen_swap.1 hv)
  -- Along the dependencies: a task whose dependencies are done is ready, or done itself.
  have hall : ∀ id ∈ dag.tasks.keys, dag.status id = some .done := by
    refine hacyclic.induction dag.tasks.keys ?_
    intro v hv ih
    rcases hstatus v (Finmap.mem_keys.1 hv) with hpending | hdone
    · have hready : v ∈ readyTasks dag constraints := by
        refine mem_readyTasks.2 ⟨hpending, by simp [hfree], ?_⟩
        intro dep hdep
        exact ih dep (Finmap.mem_keys.2 (hvalid.1 v dep hdep)) hdep
      simp [hnil] at hready
    · exact hdone
  have hdone := hall id (Finmap.mem_keys.2 (ExecutionDag.mem_of_status hid))
  simp [hid] at hdone

theorem round_eq (hvalid : dag.Valid) :
    round dag constraints =
      dag.markAll .done ((readyTasks dag constraints).take constraints.maxParallel) := by
  simp [round, scheduleNextReadyTasks_eq hvalid]

theorem pendingOrDone_round (hvalid : dag.Valid) (hstatus : PendingOrDone dag) :
    PendingOrDone (round dag constraints) := by
  intro id hid
  rw [round_eq hvalid] at hid ⊢
  have hmem := (ExecutionDag.samePlan_markAll _).mem_iff.1 hid
  rw [ExecutionDag.status_markAll]
  split
  · exact .inr rfl
  · exact hstatus id hmem

/-- A round leaves less to do, as long as there is something. -/
theorem card_pending_round (hvalid : dag.Valid) (hstatus : PendingOrDone dag)
    (hc : Unconstrained constraints) :
    ((round dag constraints).withStatus .pending).card ≤ (dag.withStatus .pending).card - 1 := by
  have hsub : (round dag constraints).withStatus .pending ⊆ dag.withStatus .pending := by
    intro id hid
    rw [ExecutionDag.mem_withStatus, round_eq hvalid, ExecutionDag.status_markAll] at hid
    rw [ExecutionDag.mem_withStatus]
    split at hid
    · cases hid
    · exact hid
  rcases Finset.eq_empty_or_nonempty (dag.withStatus .pending) with hempty | ⟨id, hid⟩
  · have hnone : (round dag constraints).withStatus .pending = ∅ :=
      Finset.subset_empty.1 (hempty ▸ hsub)
    simp [hnone]
  · -- The first of the ready tasks is handed out whatever the limit, and leaves the pending ones.
    have hne := readyTasks_ne_nil hvalid hstatus hc.2 (ExecutionDag.mem_withStatus.1 hid)
    rcases List.exists_cons_of_ne_nil hne with ⟨first, rest, hready⟩
    have hpending := (mem_readyTasks.1 (hready ▸ List.mem_cons_self)).1
    have hdone : (round dag constraints).status first = some .done := by
      rcases Nat.exists_eq_succ_of_ne_zero (Nat.one_le_iff_ne_zero.1 hc.1) with ⟨n, hn⟩
      rw [round_eq hvalid, ExecutionDag.status_markAll, hready, hn, List.take_succ_cons]
      simp [ExecutionDag.mem_of_status hpending]
    have hlt : ((round dag constraints).withStatus .pending).card <
        (dag.withStatus .pending).card := by
      apply Finset.card_lt_card
      rw [Finset.ssubset_iff_of_subset hsub]
      refine ⟨first, ExecutionDag.mem_withStatus.2 hpending, ?_⟩
      simp [ExecutionDag.mem_withStatus, hdone]
    exact Nat.le_sub_one_of_lt hlt

/-- Rounds enough for what is pending finish everything. -/
theorem rounds_done {rounds : List SchedulerConstraints} (hvalid : dag.Valid)
    (hstatus : PendingOrDone dag) (hc : ∀ c ∈ rounds, Unconstrained c)
    (hlen : (dag.withStatus .pending).card ≤ rounds.length) :
    ∀ id ∈ dag.tasks, (rounds.foldl round dag).status id = some .done := by
  induction rounds generalizing dag with
  | nil =>
      intro id hid
      have hnone : dag.withStatus .pending = ∅ := Finset.card_eq_zero.1 (Nat.le_zero.1 hlen)
      rcases hstatus id hid with hpending | hdone
      · have hmem := ExecutionDag.mem_withStatus.2 hpending
        simp [hnone] at hmem
      · exact hdone
  | cons c rounds ih =>
      intro id hid
      have hsame : ExecutionDag.SamePlan dag (round dag c) := by
        rw [round_eq hvalid]
        exact ExecutionDag.samePlan_markAll _
      have hfewer := card_pending_round hvalid hstatus (hc c List.mem_cons_self)
      rw [List.length_cons] at hlen
      exact ih (hsame.valid hvalid) (pendingOrDone_round hvalid hstatus)
        (fun c' hc' => hc c' (List.mem_cons_of_mem c hc')) (by omega) id (hsame.mem_iff.2 hid)

end Rounds

/-- Validation answers and accepts exactly the plans whose dependencies are tasks and form no cycle; the
scheduler finds a task of an accepted plan as long as one is pending; and marking what it finds finishes
the plan in at most as many rounds as it has tasks. -/
theorem validate_progress (dag : ExecutionDag) :
    (∃ r, dag.validate = some r ∧ (r = .ok () ↔
      (∀ id task, dag.tasks.lookup id = some task → ∀ dep ∈ task.dependsOn, dep ∈ dag.tasks) ∧
        ∀ id, ¬ Relation.TransGen dag.DependsOn id id)) ∧
    (dag.validate = some (.ok ()) →
      (∀ id task, dag.tasks.lookup id = some task → task.status = .pending ∨ task.status = .done) →
      (∀ constraints : SchedulerConstraints,
        1 ≤ constraints.maxParallel → constraints.blockedTasks = ∅ →
        (∃ id task, dag.tasks.lookup id = some task ∧ task.status = .pending) →
        ∃ id ids, scheduleNextReadyTasks dag constraints = some (.ok (id :: ids))) ∧
      ∀ rounds : List SchedulerConstraints,
        (∀ c ∈ rounds, 1 ≤ c.maxParallel ∧ c.blockedTasks = ∅) →
        dag.tasks.keys.card ≤ rounds.length →
        ∀ id ∈ dag.tasks, (rounds.foldl round dag).status id = some .done) := by
  refine ⟨?_, ?_⟩
  · rcases dag.validate_eq with ⟨r, hr, hiff⟩
    refine ⟨r, hr, hiff.trans (and_congr_left fun _ => ?_)⟩
    constructor
    · intro hclosed id task htask dep hdep
      exact hclosed id dep ⟨task, htask, hdep⟩
    · rintro hclosed id dep ⟨task, htask, hdep⟩
      exact hclosed id task htask dep hdep
  · intro hvalidate hstatus
    have hvalid := (ExecutionDag.validate_eq_ok_iff dag).1 hvalidate
    have hstatus' : PendingOrDone dag := by
      intro id hid
      rcases Finmap.mem_iff.1 hid with ⟨task, htask⟩
      simpa [ExecutionDag.status, htask] using hstatus id task htask
    refine ⟨?_, ?_⟩
    · rintro constraints hmax hfree ⟨id, task, htask, hpending⟩
      have hid : dag.status id = some .pending := by
        simp [ExecutionDag.status, htask, hpending]
      -- Among pending tasks of an acyclic plan one has no pending dependency.
      have hne := readyTasks_ne_nil hvalid hstatus' hfree hid
      rcases List.exists_cons_of_ne_nil hne with ⟨first, rest, hready⟩
      rcases Nat.exists_eq_succ_of_ne_zero (Nat.one_le_iff_ne_zero.1 hmax) with ⟨n, hn⟩
      refine ⟨first, rest.take n, ?_⟩
      rw [scheduleNextReadyTasks_eq hvalid, hready, hn, List.take_succ_cons]
    · intro rounds hc hlen
      refine rounds_done hvalid hstatus' hc (le_trans ?_ hlen)
      exact Finset.card_le_card (Finset.filter_subset _ _)

theorem pending_of_lookup {tasks : List (String × PlanTask)} (hnodup : (tasks.map Prod.fst).Nodup)
    (hpending : ∀ p ∈ tasks, p.2.status = .pending) {id : String} {task : PlanTask}
    (h : (HashMap.ofList tasks).lookup id = some task) : task.status = .pending := by
  have hmem : id ∈ HashMap.ofList tasks := Finmap.mem_iff.2 ⟨task, h⟩
  obtain ⟨p, hp, rfl⟩ := List.mem_map.1 (HashMap.mem_ofList.1 hmem)
  obtain rfl := Option.some.inj ((HashMap.lookup_ofList hnodup hp).symm.trans h)
  exact hpending p hp

/-- Two tasks, the second after the first, which it names twice. -/
def taskChain : ExecutionDag where
  goalId := "goal"
  objective := "ship"
  tasks := HashMap.ofList [("a", .pending "a" [] 0), ("b", .pending "b" ["a", "a"] 0)]

theorem validate_progress_taskChain :
    taskChain.validate = some (.ok ()) ∧
      (∃ id ids, scheduleNextReadyTasks taskChain ⟨1, ∅⟩ = some (.ok (id :: ids))) ∧
      ∀ id ∈ taskChain.tasks, ([⟨1, ∅⟩, ⟨1, ∅⟩].foldl round taskChain).status id = some .done := by
  have hvalid : taskChain.validate = some (.ok ()) := by decide +kernel
  have hpending : ∀ id task, taskChain.tasks.lookup id = some task → task.status = .pending :=
    fun _ _ h => pending_of_lookup (by decide) (by decide) h
  obtain ⟨hready, hdone⟩ :=
    (validate_progress taskChain).2 hvalid fun id task h => Or.inl (hpending id task h)
  have hfirst : taskChain.tasks.lookup "a" = some (.pending "a" [] 0) := by decide +kernel
  refine ⟨hvalid, hready ⟨1, ∅⟩ (Nat.le_refl 1) rfl ⟨"a", _, hfirst, rfl⟩, hdone _ ?_ (by decide +kernel)⟩
  simp

end Planning
end Aivcs
