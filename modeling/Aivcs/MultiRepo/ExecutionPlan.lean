import Aivcs.MultiRepo.GraphInvariant
import Aivcs.MultiRepo.ParallelGroups

/-!
# MultiRepo.ExecutionPlan — plans schedule no repo with or before a dependency

`topological_order` and `to_execution_plan` run the same loop of `Lib.Kahn`, so they order the
nodes alike; a node's level is the length of the longest dependency chain that ends at it.

The groups of a plan are its levels (`ParallelGroups`), so a dependency is always in an earlier group.

`topological_order` and `to_execution_plan` count in-degrees, collect the roots and release successors by
walking hash maps and hash sets, but only what they have sorted goes into the queue, so plans do not depend on
the order of the maps (`plans_independent_of_hash_order`).
-/

namespace Aivcs
namespace MultiRepo
namespace RepoDependencyGraph

open Aivcs.Lib
open Relation

variable {g : RepoDependencyGraph} {order order' : HashOrder}

/-! ## The counters -/

theorem WellFormed.finite (hg : g.WellFormed) (order : HashOrder) :
    Digraph.Finite (g.dependents order) g.nodes.keys where
  source h := Finmap.mem_keys.mpr (hg.registered (mem_dependents.mp h)).1
  target h := Finmap.mem_keys.mpr (hg.registered (mem_dependents.mp h)).2
  nodup := dependents_nodup

theorem lookup_zeroDegrees (id : String) :
    (g.zeroDegrees order).lookup id = if id ∈ g.nodes then some 0 else none := by
  have hfold (l : List String) (m : HashMap String Nat) :
      (l.foldl (fun m id => m.insert id 0) m).lookup id =
        if id ∈ l then some 0 else m.lookup id := by
    induction l generalizing m with
    | nil =>
        simp
    | cons a l ih =>
        rw [List.foldl_cons, ih, HashMap.lookup_insert_apply]
        by_cases hl : id ∈ l <;> by_cases ha : id = a <;> simp [hl, ha]
  rw [zeroDegrees, hfold]
  simp [order.nodes.mem_list, Finmap.mem_keys]

theorem count_allDependents (hg : g.WellFormed) (id : String) :
    (g.allDependents order).count id =
      (g.nodes.keys.filter fun a => id ∈ g.dependents order a).card := by
  have hsum (l : List String) : (l.flatMap (g.dependents order)).count id =
      (l.filter fun a => id ∈ g.dependents order a).length := by
    induction l with
    | nil =>
        rfl
    | cons a l ih =>
        rw [List.flatMap_cons, List.count_append, ih, List.filter_cons]
        by_cases ha : id ∈ g.dependents order a
        · rw [List.count_eq_one_of_mem (dependents_nodup a) ha]
          simp [ha]
          omega
        · simp [ha, List.count_eq_zero_of_not_mem ha]
  have hkeys : g.downstream.keys = g.nodes.keys := by
    ext a
    simp only [Finmap.mem_keys, hg.downstream_keys]
  rw [allDependents, hsum, hkeys,
    ← List.toFinset_card_of_nodup ((order.downstream.nodup _).filter _)]
  congr 1
  ext a
  simp [order.downstream.mem_list]

theorem mem_zeroDegrees {id : String} : id ∈ g.zeroDegrees order ↔ id ∈ g.nodes := by
  rw [← Finmap.lookup_isSome, lookup_zeroDegrees]
  split <;> simp_all

/-- The counters of the loops: how many dependencies each node has. -/
def inDegrees (g : RepoDependencyGraph) (order : HashOrder) : HashMap String Nat :=
  (g.zeroDegrees order).tally (g.allDependents order)

theorem lookup_inDegrees (hg : g.WellFormed) {id : String} (hid : id ∈ g.nodes) :
    (g.inDegrees order).lookup id =
      some (g.nodes.keys.filter fun a => id ∈ g.dependents order a).card := by
  rw [inDegrees, HashMap.lookup_tally _ _ (Or.inl (mem_zeroDegrees.mpr hid)), lookup_zeroDegrees,
    if_pos hid, Option.getD_some, Nat.zero_add, count_allDependents hg]

theorem mem_allDependents (hg : g.WellFormed) {id : String} (h : id ∈ g.allDependents order) :
    id ∈ g.nodes := by
  obtain ⟨a, _, ha⟩ := List.mem_flatMap.mp h
  exact (hg.registered (mem_dependents.mp ha)).2

theorem mem_inDegrees (hg : g.WellFormed) (order : HashOrder) {id : String} :
    id ∈ g.inDegrees order ↔ id ∈ g.nodes := by
  rw [inDegrees, HashMap.mem_tally, mem_zeroDegrees]
  exact or_iff_left_of_imp (mem_allDependents hg)

theorem tally?_allDependents (hg : g.WellFormed) :
    (g.zeroDegrees order).tally? (g.allDependents order) = some (g.inDegrees order) :=
  HashMap.tally?_eq _ _ fun _ h => mem_zeroDegrees.mpr (mem_allDependents hg h)

/-- The counters do not depend on the orders the maps are walked in. -/
theorem inDegrees_eq (hg : g.WellFormed) (order order' : HashOrder) :
    g.inDegrees order = g.inDegrees order' := by
  apply Finmap.ext_lookup
  intro id
  by_cases hid : id ∈ g.nodes
  · rw [lookup_inDegrees hg hid, lookup_inDegrees hg hid]
    have hsame : (g.nodes.keys.filter fun a => id ∈ g.dependents order a) =
        g.nodes.keys.filter fun a => id ∈ g.dependents order' a :=
      Finset.filter_congr fun a _ => by rw [mem_dependents, mem_dependents]
    rw [hsame]
  · rw [Finmap.lookup_eq_none.mpr (mt (mem_inDegrees hg order).mp hid),
      Finmap.lookup_eq_none.mpr (mt (mem_inDegrees hg order').mp hid)]

/-- The last loop of `topological_order` over the nodes finds every counter in place. -/
theorem foldl_orInsert_inDegrees (hg : g.WellFormed) (order : HashOrder) :
    (order.nodes.list g.nodes.keys).foldl (fun m id => m.orInsert id 0) (g.inDegrees order) =
      g.inDegrees order := by
  have hfold (l : List String) (m : HashMap String Nat) (h : ∀ id ∈ l, id ∈ m) :
      l.foldl (fun m id => m.orInsert id 0) m = m := by
    induction l with
    | nil =>
        rfl
    | cons a l ih =>
        have ha : m.orInsert a 0 = m := if_pos (h a List.mem_cons_self)
        rw [List.foldl_cons, ha]
        exact ih fun id hid => h id (List.mem_cons_of_mem a hid)
  apply hfold
  intro id hid
  rw [order.nodes.mem_list, Finmap.mem_keys] at hid
  exact (mem_inDegrees hg order).mpr hid

theorem mem_roots {inDegree : HashMap String Nat} {id : String} :
    id ∈ roots order inDegree ↔ inDegree.lookup id = some 0 := by
  rw [roots, List.mem_insertionSort, List.mem_filter, order.inDegree.mem_list, Finmap.mem_keys,
    decide_eq_true_eq]
  exact and_iff_right_of_imp Finmap.mem_of_lookup_eq_some

theorem roots_nodup (order : HashOrder) (inDegree : HashMap String Nat) : (roots order inDegree).Nodup :=
  (List.perm_insertionSort _ _).nodup_iff.mpr ((order.inDegree.nodup _).filter _)

theorem roots_eq (order order' : HashOrder) (inDegree : HashMap String Nat) :
    roots order inDegree = roots order' inDegree :=
  insertionSort_eq_of_perm ((order.inDegree.perm order'.inDegree inDegree.keys).filter _)

/-! ## The order of the nodes -/

/-- What the loop makes of a graph: every node once, after all it depends on, with the length of
the longest chain to it, and no level before a smaller one. -/
structure LevelOrdered (g : RepoDependencyGraph) (popped : List (String × Nat)) : Prop where
  nodup : (popped.map Prod.fst).Nodup
  mem_iff : ∀ id, id ∈ popped.map Prod.fst ↔ id ∈ g.nodes
  ordered : ∀ pre x post, popped = pre ++ x :: post → ∀ a, g.Edge a x.1 → a ∈ pre.map Prod.fst
  longest : ∀ x ∈ popped, Digraph.IsLongest g.Edge x.1 x.2
  sorted : popped.Pairwise fun x y => x.2 ≤ y.2

theorem levelOrder_eq_kahn (hg : g.WellFormed) : g.levelOrder order =
    Digraph.kahn (g.dependents order) (g.nodes.keys.card + 1) (g.inDegrees order)
      ((roots order (g.inDegrees order)).map fun id => (id, 0)) := by
  rw [levelOrder, tally?_allDependents hg]
  rfl

theorem levelOrder_spec (hg : g.WellFormed) (order : HashOrder) :
    ∃ popped, g.levelOrder order = some popped ∧ g.LevelOrdered popped := by
  have hfinite := hg.finite order
  have hinit := Digraph.KahnInv.init hfinite (roots_nodup order (g.inDegrees order))
    (fun v hv => lookup_inDegrees hg (Finmap.mem_keys.mp hv)) fun v => by
      rw [mem_roots, Finmap.mem_keys, ← mem_inDegrees hg order]
      exact (and_iff_right_of_imp Finmap.mem_of_lookup_eq_some).symm
  obtain ⟨popped, deg, hkahn, hinv⟩ := Digraph.kahn_spec hfinite (g.nodes.keys.card + 1) hinit
    (by simp)
  rw [List.nil_append] at hinv
  have hacyclic : Digraph.Acyclic (Digraph.Succ (g.dependents order)) :=
    (succ_dependents g order).symm ▸ hg.acyclic
  refine ⟨popped, (levelOrder_eq_kahn hg).trans hkahn, ?_, ?_, ?_, ?_, ?_⟩
  · simpa using hinv.nodup
  · intro id
    rw [← Finmap.mem_keys]
    constructor
    · intro hid
      obtain ⟨x, hx, rfl⟩ := List.mem_map.mp hid
      exact hinv.mem x (List.mem_append_left _ hx)
    · exact hinv.complete hacyclic id
  · intro pre x post hsplit a ha
    exact hinv.ordered pre x post hsplit a (mem_dependents.mpr ha)
  · intro x hx
    rw [← succ_dependents g order]
    exact hinv.longest x (List.mem_append_left _ hx)
  · simpa using hinv.sorted

/-- Walking the maps in another order gives the same list. -/
theorem levelOrder_eq (hg : g.WellFormed) (order order' : HashOrder) :
    g.levelOrder order = g.levelOrder order' := by
  have hperm (id : String) : (g.dependents order id).Perm (g.dependents order' id) := by
    rw [List.perm_ext_iff_of_nodup (dependents_nodup id) (dependents_nodup id)]
    intro a
    rw [mem_dependents, mem_dependents]
  rw [levelOrder_eq_kahn hg, levelOrder_eq_kahn hg, inDegrees_eq hg order order',
    roots_eq order order', Digraph.kahn_perm hperm]

theorem LevelOrdered.length_eq {popped : List (String × Nat)} (h : g.LevelOrdered popped) :
    popped.length = g.nodes.keys.card := by
  rw [← List.length_map Prod.fst, ← List.toFinset_card_of_nodup h.nodup]
  congr 1
  ext id
  rw [List.mem_toFinset, h.mem_iff, Finmap.mem_keys]

theorem LevelOrdered.lookup {popped : List (String × Nat)} (h : g.LevelOrdered popped) :
    ∀ id ∈ popped.map Prod.fst, ∃ node, g.nodes.lookup id = some node :=
  fun id hid => Finmap.mem_iff.mp ((h.mem_iff id).mp hid)

/-- `topological_order` returns the nodes in that order. -/
theorem topologicalOrder_spec (hg : g.WellFormed) (order : HashOrder) :
    ∃ popped nodes, g.levelOrder order = some popped ∧ g.LevelOrdered popped ∧
      g.topologicalOrder order = some (.ok nodes) ∧
      List.Forall₂ (fun id node => g.nodes.lookup id = some node) (popped.map Prod.fst) nodes := by
  obtain ⟨popped, hpopped, hlevel⟩ := levelOrder_spec hg order
  obtain ⟨nodes, hnodes, hall⟩ := mapM_eq_some hlevel.lookup
  refine ⟨popped, nodes, hpopped, hlevel, ?_, hall.imp fun _ _ h => h.2⟩
  have hsorted : Digraph.kahnOrder (g.dependents order) (g.nodes.keys.card + 1)
      (g.inDegrees order) (roots order (g.inDegrees order)) = some (popped.map Prod.fst) := by
    have hmap := Digraph.kahnOrder_eq_map (g.dependents order) (g.nodes.keys.card + 1)
      (g.inDegrees order) ((roots order (g.inDegrees order)).map fun id => (id, 0))
    rw [← levelOrder_eq_kahn hg, hpopped] at hmap
    simpa [Function.comp_def] using hmap
  have hfold := foldl_orInsert_inDegrees hg order
  rw [inDegrees] at hfold hsorted
  simp only [topologicalOrder, hfold, hsorted, Option.bind_eq_bind, Option.bind_some,
    List.length_map, hlevel.length_eq, ne_eq, not_true_eq_false, if_false, hnodes]
  rfl

/-! ## The steps of a plan -/

theorem lookup_nodeLevels {popped : List (String × Nat)} (hnodup : (popped.map Prod.fst).Nodup)
    {x : String × Nat} (hx : x ∈ popped) : (nodeLevels popped).lookup x.1 = some x.2 :=
  HashMap.lookup_ofList hnodup hx

/-- `level_counts` counts the levels of the nodes. -/
theorem lookup_levelCounts {popped : List (String × Nat)}
    (hnodup : (popped.map Prod.fst).Nodup) {x : String × Nat} (hx : x ∈ popped) :
    (levelCounts order (nodeLevels popped)).lookup x.2 =
      some ((popped.map Prod.snd).count x.2) := by
  have hkeys : (order.nodeLevel.list (nodeLevels popped).keys).Perm (popped.map Prod.fst) := by
    rw [List.perm_ext_iff_of_nodup (order.nodeLevel.nodup _) hnodup]
    intro id
    rw [order.nodeLevel.mem_list, Finmap.mem_keys, nodeLevels, HashMap.mem_ofList]
  have hlevels : (popped.map Prod.fst).filterMap (fun id => (nodeLevels popped).lookup id) =
      popped.map Prod.snd := by
    rw [List.filterMap_map, ← List.filterMap_eq_map]
    apply List.filterMap_congr
    intro y hy
    exact lookup_nodeLevels hnodup hy
  have hperm := hkeys.filterMap fun id => (nodeLevels popped).lookup id
  rw [hlevels] at hperm
  have hmem : x.2 ∈ popped.map Prod.snd := List.mem_map_of_mem hx
  rw [levelCounts, HashMap.lookup_tally _ _ (Or.inr (hperm.mem_iff.mpr hmem)),
    hperm.count_eq]
  simp

theorem mem_dependsOn (hg : g.WellFormed) {id a : String} :
    a ∈ g.dependsOn order id ↔ g.Edge a id := by
  rw [Edge, hg.converse, dependsOn, dependencySet]
  cases g.upstream.lookup id with
  | none =>
      simp
  | some ids =>
      simp [(order.dependencies id).mem_list]

/-- The step made for the popped node `x`. -/
structure StepFor (g : RepoDependencyGraph) (popped : List (String × Nat)) (x : String × Nat)
    (step : RepoStep) : Prop where
  node : g.nodes.lookup x.1 = some step.repo
  dependsOn_iff : ∀ d, d ∈ step.dependsOn ↔ g.Edge d x.1
  parallelizable_iff : step.parallelizable = true ↔ 1 < (popped.map Prod.snd).count x.2

theorem planStep_spec (hg : g.WellFormed) {popped : List (String × Nat)}
    (h : g.LevelOrdered popped) (order : HashOrder) {x : String × Nat} (hx : x ∈ popped)
    (position : Nat) :
    ∃ step, g.planStep order (nodeLevels popped) (levelCounts order (nodeLevels popped)) x.1
        position = some step ∧ g.StepFor popped x step := by
  obtain ⟨node, hnode⟩ := h.lookup x.1 (List.mem_map_of_mem hx)
  refine ⟨_, by rw [planStep, hnode, lookup_nodeLevels h.nodup hx]; rfl, hnode, ?_, ?_⟩
  · intro d
    exact mem_dependsOn hg
  · simp [lookup_levelCounts h.nodup hx]

/-- `to_execution_plan` succeeds, with one step for each popped node. -/
theorem toExecutionPlan_spec (hg : g.WellFormed) (order : HashOrder) (title : String) :
    ∃ popped steps, g.levelOrder order = some popped ∧ g.LevelOrdered popped ∧
      g.toExecutionPlan order title = some (.ok ⟨title, steps⟩) ∧
      List.Forall₂ (g.StepFor popped) popped steps := by
  obtain ⟨popped, hpopped, hlevel⟩ := levelOrder_spec hg order
  by_cases hempty : g.nodes.keys = ∅
  · obtain rfl : popped = [] := by
      rw [← List.length_eq_zero_iff, hlevel.length_eq, hempty, Finset.card_empty]
    refine ⟨[], [], hpopped, hlevel, ?_, List.Forall₂.nil⟩
    simp only [toExecutionPlan, hempty, if_true]
    rfl
  have hstep : ∀ y ∈ popped.zipIdx, ∃ step, g.planStep order (nodeLevels popped)
      (levelCounts order (nodeLevels popped)) y.1.1 y.2 = some step ∧
        g.StepFor popped y.1 step := fun y hy =>
    planStep_spec hg hlevel order (List.fst_mem_of_mem_zipIdx hy) y.2
  obtain ⟨steps, hsteps, hall⟩ := mapM_eq_some fun y hy => (hstep y hy).imp fun _ h => h.1
  refine ⟨popped, steps, hpopped, hlevel, ?_, ?_⟩
  · have hmapM : ((popped.map Prod.fst).zipIdx.mapM fun y => g.planStep order (nodeLevels popped)
        (levelCounts order (nodeLevels popped)) y.1 y.2) = some steps := by
      rw [List.zipIdx_map, List.mapM_map]
      exact hsteps
    simp only [toExecutionPlan, hempty, if_false, hpopped, Option.bind_eq_bind, Option.bind_some,
      List.length_map, hlevel.length_eq, ne_eq, not_true_eq_false, hmapM]
    rfl
  · rw [← List.zipIdx_map_fst 0 popped, List.forall₂_map_left_iff, List.zipIdx_map_fst]
    refine hall.imp ?_
    rintro y step ⟨hy, hplan⟩
    obtain ⟨step', hstep', hfor⟩ := hstep y hy
    obtain rfl : step' = step := Option.some.inj (hstep'.symm.trans hplan)
    exact hfor

/-! ## The groups of a plan -/

variable {popped : List (String × Nat)} {steps : List RepoStep}

theorem StepFor.repoId (hg : g.WellFormed) {x : String × Nat} {step : RepoStep}
    (h : g.StepFor popped x step) : x.1 = step.repo.repoId :=
  (hg.ids x.1 step.repo h.node).symm

/-- The level `node_level` records for an id. -/
def levelIn (popped : List (String × Nat)) (id : String) : Nat :=
  ((nodeLevels popped).lookup id).getD 0

theorem LevelOrdered.levelIn_eq (h : g.LevelOrdered popped) {x : String × Nat} (hx : x ∈ popped) :
    levelIn popped x.1 = x.2 := by
  rw [levelIn, lookup_nodeLevels h.nodup hx, Option.getD_some]

theorem LevelOrdered.isLongest (h : g.LevelOrdered popped) {id : String} (hid : id ∈ g.nodes) :
    Digraph.IsLongest g.Edge id (levelIn popped id) := by
  obtain ⟨x, hx, rfl⟩ := List.mem_map.mp ((h.mem_iff id).mpr hid)
  rw [h.levelIn_eq hx]
  exact h.longest x hx

theorem LevelOrdered.levelIn_lt (hg : g.WellFormed) (h : g.LevelOrdered popped) {a b : String}
    (hedge : g.Edge a b) : levelIn popped a < levelIn popped b :=
  (h.isLongest (hg.registered hedge).1).lt_of_edge (h.isLongest (hg.registered hedge).2) hedge

theorem LevelOrdered.levelIn_lt_of_transGen (hg : g.WellFormed) (h : g.LevelOrdered popped)
    {a b : String} (hpath : TransGen g.Edge a b) : levelIn popped a < levelIn popped b := by
  induction hpath with
  | single hedge =>
      exact h.levelIn_lt hg hedge
  | tail _ hedge ih =>
      exact ih.trans (h.levelIn_lt hg hedge)

/-- A level is counted more than once exactly when another node is on it. -/
theorem one_lt_count_iff (hnodup : (popped.map Prod.fst).Nodup) {x : String × Nat}
    (hx : x ∈ popped) :
    1 < (popped.map Prod.snd).count x.2 ↔ ∃ y ∈ popped, y.1 ≠ x.1 ∧ y.2 = x.2 := by
  obtain ⟨pre, post, rfl⟩ := List.append_of_mem hx
  have hperm : (pre ++ x :: post).Perm (x :: (pre ++ post)) := List.perm_middle
  have hother : x.1 ∉ (pre ++ post).map Prod.fst :=
    (List.nodup_cons.mp ((hperm.map Prod.fst).nodup_iff.mp hnodup)).1
  have hcount : (((pre ++ x :: post)).map Prod.snd).count x.2 =
      ((pre ++ post).map Prod.snd).count x.2 + 1 := by
    rw [(hperm.map Prod.snd).count_eq, List.map_cons, List.count_cons_self]
  rw [hcount, Nat.lt_add_left_iff_pos, List.count_pos_iff, List.mem_map]
  constructor
  · rintro ⟨y, hy, hlevel⟩
    refine ⟨y, hperm.mem_iff.mpr (List.mem_cons_of_mem x hy), ?_, hlevel⟩
    exact fun h => hother (h ▸ List.mem_map_of_mem hy)
  · rintro ⟨y, hy, hne, hlevel⟩
    rcases List.mem_cons.mp (hperm.mem_iff.mp hy) with rfl | hy
    · exact absurd rfl hne
    · exact ⟨y, hy, hlevel⟩

/-- The steps of a plan are levelled. -/
theorem LevelOrdered.leveled (hg : g.WellFormed) (h : g.LevelOrdered popped)
    (hsteps : List.Forall₂ (g.StepFor popped) popped steps) :
    Leveled (levelIn popped) steps := by
  have hids : popped.map Prod.fst = steps.map fun s => s.repo.repoId :=
    map_eq_of_forall₂ (fun x s hx => hx.repoId hg) hsteps
  have hstep {s : RepoStep} (hs : s ∈ steps) : ∃ x ∈ popped, g.StepFor popped x s :=
    exists_left_of_forall₂ hsteps hs
  have hback {x : String × Nat} (hx : x ∈ popped) : ∃ s ∈ steps, s.repo.repoId = x.1 :=
    List.mem_map.mp (hids ▸ List.mem_map_of_mem hx)
  refine ⟨hids ▸ h.nodup, ?_, ?_, ?_, ?_⟩
  · have hsorted : (popped.map Prod.fst).Pairwise fun a b => levelIn popped a ≤ levelIn popped b := by
      rw [List.pairwise_map]
      refine h.sorted.imp_of_mem ?_
      intro x y hx hy hle
      rw [h.levelIn_eq hx, h.levelIn_eq hy]
      exact hle
    rw [hids, List.pairwise_map] at hsorted
    exact hsorted
  · intro s hs
    obtain ⟨x, hx, hfor⟩ := hstep hs
    rw [hfor.parallelizable_iff, ← hfor.repoId hg, h.levelIn_eq hx, one_lt_count_iff h.nodup hx]
    constructor
    · rintro ⟨y, hy, hne, hlevel⟩
      obtain ⟨t, ht, hty⟩ := hback hy
      exact ⟨t, ht, hty ▸ hne, by rw [hty, h.levelIn_eq hy, hlevel]⟩
    · rintro ⟨t, ht, hne, hlevel⟩
      obtain ⟨y, hy, hfor'⟩ := hstep ht
      rw [← hfor'.repoId hg] at hne hlevel
      exact ⟨y, hy, hne, (h.levelIn_eq hy).symm.trans hlevel⟩
  · intro s hs d hd
    obtain ⟨x, hx, hfor⟩ := hstep hs
    rw [← hfor.repoId hg]
    exact h.levelIn_lt hg ((hfor.dependsOn_iff d).mp hd)
  · intro s hs n hn
    obtain ⟨x, hx, hfor⟩ := hstep hs
    rw [← hfor.repoId hg, h.levelIn_eq hx] at hn
    have hlong := h.longest x hx
    rw [hn] at hlong
    obtain ⟨a, ha, halong⟩ := hlong.exists_pred fun a ha =>
      ⟨_, h.isLongest (hg.registered ha).1⟩
    obtain ⟨y, hy, rfl⟩ := List.mem_map.mp ((h.mem_iff a).mpr (hg.registered ha).1)
    obtain ⟨t, ht, hty⟩ := hback hy
    refine ⟨t, ht, ?_, ?_⟩
    · rw [hty]
      exact (hfor.dependsOn_iff y.1).mpr ha
    · rw [hty]
      exact (h.isLongest (hg.registered ha).1).unique halong

/-- The repos of the steps are the nodes `topological_order` looks up. -/
theorem repos_eq {nodes : List RepoNode} (hsteps : List.Forall₂ (g.StepFor popped) popped steps)
    (hnodes : List.Forall₂ (fun id node => g.nodes.lookup id = some node) (popped.map Prod.fst)
      nodes) : steps.map RepoStep.repo = nodes := by
  rw [List.forall₂_map_left_iff] at hnodes
  have hrepos : List.Forall₂ (fun x node => g.nodes.lookup x.1 = some node) popped
      (steps.map RepoStep.repo) :=
    List.forall₂_map_right_iff.mpr (hsteps.imp fun x s h => h.node)
  exact List.right_unique_forall₂' (fun _ _ _ h h' => Option.some.inj (h.symm.trans h')) hrepos
    hnodes

/-- Every node of the graph is returned, once. -/
theorem LevelOrdered.nodes_spec (hg : g.WellFormed) (h : g.LevelOrdered popped)
    {nodes : List RepoNode} (hnodes : List.Forall₂ (fun id node => g.nodes.lookup id = some node)
      (popped.map Prod.fst) nodes) :
    nodes.map RepoNode.repoId = popped.map Prod.fst ∧ nodes.Nodup ∧
      ∀ node, node ∈ nodes ↔ g.nodes.lookup node.repoId = some node := by
  have hids : nodes.map RepoNode.repoId = popped.map Prod.fst := by
    have heq : (popped.map Prod.fst).map id = nodes.map RepoNode.repoId :=
      map_eq_of_forall₂ (fun a node hnode => (hg.ids a node hnode).symm) hnodes
    simpa using heq.symm
  have hlookup {node : RepoNode} (hmem : node ∈ nodes) :
      g.nodes.lookup node.repoId = some node := by
    obtain ⟨a, _, ha⟩ := exists_left_of_forall₂ hnodes hmem
    rw [hg.ids a node ha]
    exact ha
  refine ⟨hids, List.Nodup.of_map RepoNode.repoId (hids ▸ h.nodup), fun node => ⟨hlookup, ?_⟩⟩
  intro hnode
  have hmem : node.repoId ∈ nodes.map RepoNode.repoId :=
    hids ▸ (h.mem_iff node.repoId).mpr (Finmap.mem_of_lookup_eq_some hnode)
  obtain ⟨node', hnode', heq⟩ := List.mem_map.mp hmem
  have hsame := hlookup hnode'
  rw [heq, hnode] at hsame
  exact Option.some.inj hsame ▸ hnode'

/-- A plan is made for every reachable graph.  Its steps are the nodes in the order
`topological_order` returns them (whatever the order of the hash maps in either call), `node_level`
is the length of the longest dependency chain, and the parallel groups cut the steps so that
everything a step depends on, directly or not, is in a strictly earlier group. -/
theorem toExecutionPlan_groups_after_dependencies (g : RepoDependencyGraph) (hg : g.Reachable)
    (order order' : HashOrder) (title : String) :
    ∃ (plan : RepoExecutionPlan) (nodes : List RepoNode) (popped : List (String × Nat)),
      g.toExecutionPlan order title = some (.ok plan) ∧
      g.topologicalOrder order' = some (.ok nodes) ∧
      plan.steps.map RepoStep.repo = nodes ∧
      nodes.Nodup ∧ (∀ node, node ∈ nodes ↔ g.nodes.lookup node.repoId = some node) ∧
      g.levelOrder order = some popped ∧
      (∀ id ∈ g.nodes, ∃ level, (nodeLevels popped).lookup id = some level ∧
        Digraph.IsLongest g.Edge id level) ∧
      plan.parallelGroups.flatten = plan.steps ∧
      (∀ group ∈ plan.parallelGroups, group ≠ []) ∧
      ∀ (j : Nat) (group : List RepoStep), plan.parallelGroups[j]? = some group → ∀ step ∈ group,
        ∀ d, TransGen g.Edge d step.repo.repoId →
          ∃ (i : Nat) (group' : List RepoStep), i < j ∧ plan.parallelGroups[i]? = some group' ∧
            ∃ s ∈ group', s.repo.repoId = d := by
  have hwf := hg.wellFormed
  obtain ⟨popped, steps, hpopped, hlevel, hplan, hsteps⟩ := toExecutionPlan_spec hwf order title
  obtain ⟨popped', nodes, hpopped', -, htopo, hnodes⟩ := topologicalOrder_spec hwf order'
  obtain rfl : popped' = popped := by
    rw [levelOrder_eq hwf order' order, hpopped] at hpopped'
    exact (Option.some.inj hpopped').symm
  have hlv := hlevel.leveled hwf hsteps
  obtain ⟨hflat, hcut⟩ := @parallelGroups_spec _ ⟨title, steps⟩ hlv
  obtain ⟨_, hnodup, hmem_iff⟩ := hlevel.nodes_spec hwf hnodes
  refine ⟨⟨title, steps⟩, nodes, popped', hplan, htopo, repos_eq hsteps hnodes, hnodup,
    hmem_iff, hpopped, ?_, hflat, hcut.nonempty, ?_⟩
  · intro id hid
    obtain ⟨x, hx, rfl⟩ := List.mem_map.mp ((hlevel.mem_iff id).mpr hid)
    exact ⟨x.2, lookup_nodeLevels hlevel.nodup hx, hlevel.longest x hx⟩
  · intro j group hj step hstep d hd
    -- the dependency is a node, so it has a step, and that step is on a lower level
    obtain ⟨c, hdc, _⟩ := TransGen.head'_iff.mp hd
    have hids : popped'.map Prod.fst = steps.map fun s => s.repo.repoId :=
      map_eq_of_forall₂ (fun x s hx => hx.repoId hwf) hsteps
    have hmem : d ∈ steps.map fun s => s.repo.repoId :=
      hids ▸ (hlevel.mem_iff d).mpr (hwf.registered hdc).1
    obtain ⟨s, hs, rfl⟩ := List.mem_map.mp hmem
    have hs' : s ∈ (RepoExecutionPlan.mk title steps).parallelGroups.flatten := by
      rw [hflat]
      exact hs
    obtain ⟨group', hgroup', hsgroup⟩ := List.mem_flatten.mp hs'
    obtain ⟨i, hi⟩ := List.mem_iff_getElem?.mp hgroup'
    have hlt := hlevel.levelIn_lt_of_transGen hwf hd
    exact ⟨i, group', hcut.index_lt hi hj hsgroup hstep hlt, hi, s, hsgroup, rfl⟩

/-- Two repos, so two groups of one step each. -/
theorem toExecutionPlan_groups_after_dependencies_demo : demoGraph.Reachable ∧
    ∃ (plan : RepoExecutionPlan) (nodes : List RepoNode),
      demoGraph.toExecutionPlan HashOrder.sorted "release" = some (.ok plan) ∧
      demoGraph.topologicalOrder HashOrder.sorted = some (.ok nodes) ∧
      plan.steps.map RepoStep.repo = nodes := by
  obtain ⟨plan, nodes, _, hplan, htopo, heq, _⟩ := toExecutionPlan_groups_after_dependencies
    demoGraph demoGraph_reachable HashOrder.sorted HashOrder.sorted "release"
  exact ⟨demoGraph_reachable, plan, nodes, hplan, htopo, heq⟩

end RepoDependencyGraph

/-! ## The order of the hash maps -/

namespace RepoDependencyGraph

open Aivcs.Lib

variable {g : RepoDependencyGraph} {popped : List (String × Nat)} {nodes : List RepoNode}

/-- A node comes after all it depends on. -/
theorem LevelOrdered.dependencies_first (hg : g.WellFormed) (h : g.LevelOrdered popped)
    (hnodes : List.Forall₂ (fun id node => g.nodes.lookup id = some node) (popped.map Prod.fst) nodes)
    {pre post : List RepoNode} {node : RepoNode} (hsplit : nodes = pre ++ node :: post) {a : String}
    (ha : g.Edge a node.repoId) : a ∈ pre.map RepoNode.repoId := by
  obtain ⟨hids, -⟩ := h.nodes_spec hg hnodes
  have hpopped : popped.map Prod.fst = pre.map RepoNode.repoId ++ node.repoId ::
      post.map RepoNode.repoId := by
    rw [← hids, hsplit, List.map_append, List.map_cons]
  obtain ⟨pre', rest, rfl, hpre, hrest⟩ := List.map_eq_append_iff.1 hpopped
  obtain ⟨x, post', rfl, hx, -⟩ := List.map_eq_cons_iff.1 hrest
  rw [← hpre]
  exact h.ordered pre' x post' rfl a (hx ▸ ha)

/-- Whether each node shares its level. -/
def levelShared (popped : List (String × Nat)) : List Bool :=
  popped.map fun x => decide (1 < (popped.map Prod.snd).count x.2)

theorem map_parallelizable {steps : List RepoStep}
    (hsteps : List.Forall₂ (g.StepFor popped) popped steps) :
    steps.map RepoStep.parallelizable = levelShared popped := by
  refine (map_eq_of_forall₂ (fun x step hstep => ?_) hsteps).symm
  rw [Bool.eq_iff_iff, hstep.parallelizable_iff, decide_eq_true_iff]

/-- There is one order of the nodes, dependencies first, that `topological_order` returns and the steps of a
plan have, whatever the order of the hash maps; and one choice of the steps that can run in parallel. -/
theorem plans_independent_of_hash_order (g : RepoDependencyGraph) (hg : g.Reachable) :
    ∃ (nodes : List RepoNode) (parallelizable : List Bool),
      (∀ order, g.topologicalOrder order = some (.ok nodes)) ∧
      nodes.Nodup ∧ (∀ node, node ∈ nodes ↔ g.nodes.lookup node.repoId = some node) ∧
      (∀ pre node post, nodes = pre ++ node :: post → ∀ a, g.Edge a node.repoId →
        a ∈ pre.map RepoNode.repoId) ∧
      ∀ order title, ∃ steps, g.toExecutionPlan order title = some (.ok ⟨title, steps⟩) ∧
        steps.map RepoStep.repo = nodes ∧ steps.map RepoStep.parallelizable = parallelizable := by
  have hwf := hg.wellFormed
  obtain ⟨popped, nodes, hpopped, hlevel, -, hnodes⟩ := topologicalOrder_spec hwf HashOrder.sorted
  have hsame {order : HashOrder} {popped' : List (String × Nat)}
      (h : g.levelOrder order = some popped') : popped' = popped := by
    rw [levelOrder_eq hwf order HashOrder.sorted, hpopped] at h
    exact (Option.some.inj h).symm
  obtain ⟨-, hnodup, hmem⟩ := hlevel.nodes_spec hwf hnodes
  refine ⟨nodes, levelShared popped, ?_, hnodup, hmem,
    fun pre node post hsplit a ha => hlevel.dependencies_first hwf hnodes hsplit ha, ?_⟩
  · intro order
    obtain ⟨popped', nodes', hpopped', -, htopo, hnodes'⟩ := topologicalOrder_spec hwf order
    rw [hsame hpopped'] at hnodes'
    have hlookup : nodes' = nodes :=
      List.right_unique_forall₂' (fun _ _ _ h h' => Option.some.inj (h.symm.trans h')) hnodes' hnodes
    rw [htopo, hlookup]
  · intro order title
    obtain ⟨popped', steps, hpopped', -, hplan, hsteps⟩ := toExecutionPlan_spec hwf order title
    obtain rfl := hsame hpopped'
    exact ⟨steps, hplan, repos_eq hsteps hnodes, map_parallelizable hsteps⟩

/-- Two repos, one depending on the other. -/
theorem plans_independent_of_hash_order_demo : demoGraph.Reachable ∧
    ∃ nodes, ∀ order, demoGraph.topologicalOrder order = some (.ok nodes) := by
  obtain ⟨nodes, _, htopo, _⟩ := plans_independent_of_hash_order demoGraph demoGraph_reachable
  exact ⟨demoGraph_reachable, nodes, htopo⟩

end RepoDependencyGraph

end MultiRepo
end Aivcs
