import Mathlib.Data.String.Basic
import Aivcs.Lib.MultiKahn

/-!
# MultiRepo.CrossRepoGraph — the execution order of a cross-repo change graph

`execution_order` of `multi_repo/model.rs`: the in-degrees count every dependency between listed repos, as
often as it is listed, and a queue is emptied from the repos that wait for nothing.  The queue holds names,
each of them once, while the closing test compares what left it with the length of the caller's list.

* `executionOrder_eq` — what the loops compute, for every graph and every order of the hash map;
* `executionOrder_iff` — when that is the documented order.

A call that would panic (a missing entry behind an `unwrap`, a counter below zero or past `u32::MAX`) or not
return is `none`.
-/

namespace Aivcs
namespace MultiRepo

open Aivcs.Lib Relation

structure RepoId where
  name : String
  deriving DecidableEq, Repr

/-- `dependent` is built after `dependency`. -/
structure RepoDependency where
  dependent : RepoId
  dependency : RepoId
  deriving DecidableEq, Repr

structure CrossRepoGraph where
  repos : List RepoId
  dependencies : List RepoDependency
  deriving DecidableEq, Repr

namespace CrossRepoGraph

/-- The distinct names of the listed repos. -/
def names (g : CrossRepoGraph) : Finset String :=
  (g.repos.map RepoId.name).toFinset

/-- The two maps the first loop fills. -/
structure Links where
  outEdges : HashMap String (List String)
  inDegree : Digraph.Counters String

/-- Both maps with an entry for every name. -/
def Links.empty (names : List String) : Links where
  outEdges := HashMap.ofList (names.map fun n => (n, []))
  inDegree := HashMap.ofList (names.map fun n => (n, 0))

/-- The body of the first loop; `in_degree` counts in `u32`. -/
def link (names : Finset String) (links : Links) (d : RepoDependency) : Option Links :=
  if d.dependency.name ∉ names ∨ d.dependent.name ∉ names then
    some links
  else
    match links.outEdges.modify? d.dependency.name (· ++ [d.dependent.name]),
        links.inDegree.lookup d.dependent.name with
    | some outEdges, some degree =>
        if degree + 1 < 2 ^ 32 then
          some ⟨outEdges, links.inDegree.insert d.dependent.name (degree + 1)⟩
        else
          none
    | _, _ => none

/-- `names` is walked for the two maps and `in_degree` for the queue, in orders of their own. -/
structure HashOrders where
  names : Iteration String
  inDegree : Iteration String

def executionOrder (g : CrossRepoGraph) (order : HashOrders) :
    Option (Except String (List RepoId)) := do
  let links ← g.dependencies.foldlM (link g.names) (.empty (order.names.list g.names))
  let queue := (order.inDegree.list links.inDegree.keys).filter fun n =>
    links.inDegree.lookup n = some 0
  -- A name is queued when its counter reaches zero, once at most: a round for each suffices.
  let popped ← Digraph.drain (fun n => (links.outEdges.lookup n).getD []) (g.names.card + 1)
    links.inDegree queue
  if popped.length ≠ g.repos.length then
    return .error "cycle detected in repo dependencies"
  else
    return .ok (popped.map RepoId.mk)

def hasCycle (g : CrossRepoGraph) (order : HashOrders) : Option Bool :=
  (g.executionOrder order).map fun r => match r with
    | .error _ => true
    | .ok _ => false

/-! ## What an order is for -/

/-- A dependency of `b` on `a`, both of them listed. -/
def Edge (g : CrossRepoGraph) (a b : String) : Prop :=
  a ∈ g.names ∧ b ∈ g.names ∧
    ∃ d ∈ g.dependencies, d.dependency.name = a ∧ d.dependent.name = b

/-- Every listed repo once, every listed dependency before its dependents. -/
structure Topological (g : CrossRepoGraph) (ids : List RepoId) : Prop where
  nodup : ids.Nodup
  mem : ∀ id, id ∈ ids ↔ id ∈ g.repos
  ordered : ∀ a b, g.Edge a b → ids.idxOf ⟨a⟩ < ids.idxOf ⟨b⟩

/-- The calls return; there is an error exactly for a cycle, and otherwise a topological order. -/
structure Ordered (g : CrossRepoGraph) (order : HashOrders) : Prop where
  returns : g.executionOrder order ≠ none
  error : (∃ e, g.executionOrder order = some (.error e)) ↔ ¬ Digraph.Acyclic g.Edge
  ok : ∀ ids, g.executionOrder order = some (.ok ids) → g.Topological ids
  cycle : g.hasCycle order = some true ↔ ¬ Digraph.Acyclic g.Edge

/-! ## The first loop -/

/-- The dependencies that are not skipped. -/
def between (names : Finset String) (l : List RepoDependency) : List RepoDependency :=
  l.filter fun d => d.dependency.name ∈ names ∧ d.dependent.name ∈ names

/-- The dependents of `n`, as often as they are listed. -/
def dependentsOf (names : Finset String) (l : List RepoDependency) (n : String) : List String :=
  ((between names l).filter fun d => d.dependency.name = n).map fun d => d.dependent.name

/-- How many of the dependencies are those of `n`. -/
def degree (names : Finset String) (l : List RepoDependency) (n : String) : Nat :=
  ((between names l).map fun d => d.dependent.name).count n

/-- What the loop has recorded after the dependencies `l`. -/
structure Linked (names : Finset String) (l : List RepoDependency) (links : Links) : Prop where
  outEdges : ∀ n, links.outEdges.lookup n =
    if n ∈ names then some (dependentsOf names l n) else none
  inDegree : ∀ n, links.inDegree.lookup n = if n ∈ names then some (degree names l n) else none

/-- No counter passes `u32::MAX`. -/
def Counted (names : Finset String) (l : List RepoDependency) : Prop :=
  ∀ n, degree names l n < 2 ^ 32

section Link

variable {names : Finset String} {l : List RepoDependency} {d : RepoDependency} {links : Links}

theorem between_concat_skip (h : d.dependency.name ∉ names ∨ d.dependent.name ∉ names) :
    between names (l ++ [d]) = between names l := by
  have hskip : ¬ (d.dependency.name ∈ names ∧ d.dependent.name ∈ names) := by tauto
  simp [between, List.filter_append, hskip]

theorem between_concat (hdependency : d.dependency.name ∈ names)
    (hdependent : d.dependent.name ∈ names) :
    between names (l ++ [d]) = between names l ++ [d] := by
  simp [between, List.filter_append, hdependency, hdependent]

theorem linked_empty {walk : List String} (hwalk : ∀ n, n ∈ walk ↔ n ∈ names)
    (hnodup : walk.Nodup) : Linked names [] (.empty walk) := by
  have hlookup {V : Type} (v : V) (n : String) :
      (HashMap.ofList (walk.map fun n => (n, v))).lookup n = if n ∈ names then some v else none := by
    by_cases hn : n ∈ names
    · rw [if_pos hn]
      have hkeys : ((walk.map fun n => (n, v)).map Prod.fst).Nodup := by
        simpa [List.map_map, Function.comp_def] using hnodup
      exact HashMap.lookup_ofList (x := (n, v)) hkeys
        (List.mem_map.2 ⟨n, (hwalk n).2 hn, rfl⟩)
    · rw [if_neg hn, Finmap.lookup_eq_none, HashMap.mem_ofList]
      simpa [List.map_map, Function.comp_def, hwalk] using hn
  exact ⟨fun n => hlookup [] n, fun n => hlookup 0 n⟩

theorem dependentsOf_concat (hdependency : d.dependency.name ∈ names)
    (hdependent : d.dependent.name ∈ names) (n : String) :
    dependentsOf names (l ++ [d]) n =
      dependentsOf names l n ++ if d.dependency.name = n then [d.dependent.name] else [] := by
  by_cases hn : d.dependency.name = n <;>
    simp [dependentsOf, between_concat hdependency hdependent, List.filter_append, hn]

theorem degree_concat (hdependency : d.dependency.name ∈ names) (hdependent : d.dependent.name ∈ names)
    (n : String) :
    degree names (l ++ [d]) n = degree names l n + if d.dependent.name = n then 1 else 0 := by
  simp [degree, between_concat hdependency hdependent, List.count_singleton]

/-- A dependency on or of a repo that is not listed changes nothing. -/
theorem Linked.skip (h : Linked names l links)
    (hskip : d.dependency.name ∉ names ∨ d.dependent.name ∉ names) : Linked names (l ++ [d]) links where
  outEdges n := by
    rw [h.outEdges n, dependentsOf, dependentsOf, between_concat_skip hskip]
  inDegree n := by
    rw [h.inDegree n, degree, degree, between_concat_skip hskip]

theorem Linked.link_eq (h : Linked names l links) (hdependency : d.dependency.name ∈ names)
    (hdependent : d.dependent.name ∈ names) :
    link names links d =
      if degree names l d.dependent.name + 1 < 2 ^ 32 then
        some ⟨links.outEdges.insert d.dependency.name
            (dependentsOf names l d.dependency.name ++ [d.dependent.name]),
          links.inDegree.insert d.dependent.name (degree names l d.dependent.name + 1)⟩
      else none := by
  have hlisted : ¬ (d.dependency.name ∉ names ∨ d.dependent.name ∉ names) := by tauto
  simp only [link, if_neg hlisted, HashMap.modify?, h.outEdges, h.inDegree, if_pos hdependency,
    if_pos hdependent, Option.map_some]

/-- Any other is recorded in both maps. -/
theorem Linked.record (h : Linked names l links) (hdependency : d.dependency.name ∈ names)
    (hdependent : d.dependent.name ∈ names) :
    Linked names (l ++ [d])
      ⟨links.outEdges.insert d.dependency.name
          (dependentsOf names l d.dependency.name ++ [d.dependent.name]),
        links.inDegree.insert d.dependent.name (degree names l d.dependent.name + 1)⟩ where
  outEdges n := by
    rw [HashMap.lookup_insert_apply, dependentsOf_concat hdependency hdependent, h.outEdges n]
    by_cases hn : n = d.dependency.name
    · subst hn
      simp [hdependency]
    · simp [hn, Ne.symm hn]
  inDegree n := by
    rw [HashMap.lookup_insert_apply, degree_concat hdependency hdependent, h.inDegree n]
    by_cases hn : n = d.dependent.name
    · subst hn
      simp [hdependent]
    · simp [hn, Ne.symm hn]

theorem Counted.concat (h : Counted names l) (hdependency : d.dependency.name ∈ names)
    (hdependent : d.dependent.name ∈ names) (hfits : degree names l d.dependent.name + 1 < 2 ^ 32) :
    Counted names (l ++ [d]) := by
  intro n
  rw [degree_concat hdependency hdependent]
  split
  · next hn =>
    subst hn
    exact hfits
  · exact h n

/-- One round: it records the dependency, unless the counter is full. -/
theorem Linked.step (h : Linked names l links) :
    (∃ links', link names links d = some links' ∧ Linked names (l ++ [d]) links' ∧
      (Counted names l → Counted names (l ++ [d]))) ∨
    (link names links d = none ∧ ¬ Counted names (l ++ [d])) := by
  by_cases hskip : d.dependency.name ∉ names ∨ d.dependent.name ∉ names
  · refine Or.inl ⟨links, if_pos hskip, h.skip hskip, fun hcounted n => ?_⟩
    rw [degree, between_concat_skip hskip]
    exact hcounted n
  · obtain ⟨hdependency, hdependent⟩ : d.dependency.name ∈ names ∧ d.dependent.name ∈ names := by
      tauto
    have hstep := h.link_eq hdependency hdependent
    by_cases hfits : degree names l d.dependent.name + 1 < 2 ^ 32
    · rw [if_pos hfits] at hstep
      exact Or.inl ⟨_, hstep, h.record hdependency hdependent,
        fun hcounted => hcounted.concat hdependency hdependent hfits⟩
    · rw [if_neg hfits] at hstep
      refine Or.inr ⟨hstep, fun hcounted => hfits ?_⟩
      have hdegree := hcounted d.dependent.name
      rwa [degree_concat hdependency hdependent, if_pos rfl] at hdegree

theorem degree_le_concat (n : String) : degree names l n ≤ degree names (l ++ [d]) n := by
  simp [degree, between, List.filter_append]

/-- The whole loop. -/
theorem linked_foldlM (h : Linked names [] links) (l : List RepoDependency) :
    (∃ links', l.foldlM (link names) links = some links' ∧ Linked names l links' ∧
      Counted names l) ∨
    (l.foldlM (link names) links = none ∧ ¬ Counted names l) := by
  induction l using List.reverseRecOn with
  | nil =>
      exact Or.inl ⟨links, rfl, h, fun n => Nat.two_pow_pos 32⟩
  | append_singleton l d ih =>
      rw [List.foldlM_append]
      rcases ih with ⟨links', hfold, hlinked, hcounted⟩ | ⟨hfold, hfull⟩
      · have hlast : (l.foldlM (link names) links >>= fun s => [d].foldlM (link names) s) =
            link names links' d := by
          simp [hfold]
        rw [hlast]
        rcases hlinked.step (d := d) with ⟨links'', hstep, hnext, hfits⟩ | ⟨hstep, hfull⟩
        · exact Or.inl ⟨links'', hstep, hnext, hfits hcounted⟩
        · exact Or.inr ⟨hstep, hfull⟩
      · refine Or.inr ⟨by simp [hfold], fun hcounted => hfull fun n => ?_⟩
        exact (degree_le_concat n).trans_lt (hcounted n)

end Link

/-! ## The second loop -/

section Order

variable (g : CrossRepoGraph) (order : HashOrders)

/-- The dependents of `n` among the listed repos. -/
def successors (n : String) : List String :=
  if n ∈ g.names then dependentsOf g.names g.dependencies n else []

theorem mem_successors {a b : String} : b ∈ g.successors a ↔ g.Edge a b := by
  by_cases ha : a ∈ g.names
  · simp only [successors, if_pos ha, dependentsOf, between, List.mem_map, List.mem_filter,
      decide_eq_true_eq, Edge]
    constructor
    · rintro ⟨d, ⟨⟨hd, _, hdependent⟩, rfl⟩, rfl⟩
      exact ⟨ha, hdependent, d, hd, rfl, rfl⟩
    · rintro ⟨_, hb, d, hd, rfl, rfl⟩
      exact ⟨d, ⟨⟨hd, ha, hb⟩, rfl⟩, rfl⟩
  · simp [successors, Edge, ha]

theorem within_successors : Digraph.Within g.successors g.names where
  source h := ((mem_successors g).1 h).1
  target h := ((mem_successors g).1 h).2.1

theorem succ_successors : Digraph.Succ g.successors = g.Edge := by
  funext a b
  exact propext (mem_successors g)

theorem sum_count_successors (n : String) :
    ∑ a ∈ g.names, (g.successors a).count n = degree g.names g.dependencies n := by
  calc
    ∑ a ∈ g.names, (g.successors a).count n
        = ∑ a ∈ g.names, (dependentsOf g.names g.dependencies a).count n := by
          refine Finset.sum_congr rfl fun a ha => ?_
          rw [successors, if_pos ha]
    _ = degree g.names g.dependencies n := by
          apply Digraph.sum_count_targets
          intro d hd
          simp only [between, List.mem_filter, decide_eq_true_eq] at hd
          exact hd.2.1

/-- What the loops compute: the order is found whenever the counters hold, and the last test compares its
length with that of the list. -/
theorem executionOrder_eq :
    (¬ Counted g.names g.dependencies ∧ g.executionOrder order = none) ∨
    (Counted g.names g.dependencies ∧ ∃ popped deg,
      Digraph.DrainInv g.successors g.names popped deg [] ∧
      g.executionOrder order = some (if popped.length ≠ g.repos.length then
        .error "cycle detected in repo dependencies" else .ok (popped.map RepoId.mk))) := by
  have hempty : Linked g.names [] (.empty (order.names.list g.names)) :=
    linked_empty (order.names.mem_list g.names) (order.names.nodup g.names)
  rcases linked_foldlM hempty g.dependencies with ⟨links, hlinks, hlinked, hcounted⟩ | ⟨hnone, hfull⟩
  · have hsuccessors : (fun n => (links.outEdges.lookup n).getD []) = g.successors := by
      funext n
      rw [hlinked.outEdges n, successors]
      split <;> rfl
    have hdeg : ∀ n ∈ g.names,
        links.inDegree.lookup n = some (∑ a ∈ g.names, (g.successors a).count n) := by
      intro n hn
      rw [hlinked.inDegree n, if_pos hn, sum_count_successors]
    have hmem (n : String) : n ∈ links.inDegree ↔ n ∈ g.names := by
      rw [← Finmap.lookup_isSome, hlinked.inDegree n]
      by_cases hn : n ∈ g.names <;> simp [hn]
    -- The queue begins with the repos that wait for nothing.
    have hqueue : ∀ n, n ∈ (order.inDegree.list links.inDegree.keys).filter
        (fun n => links.inDegree.lookup n = some 0) ↔
          n ∈ g.names ∧ links.inDegree.lookup n = some 0 := by
      intro n
      simp [order.inDegree.mem_list, Finmap.mem_keys, hmem]
    rcases Digraph.drain_inv g.within_successors ((order.inDegree.nodup _).filter _) hdeg hqueue
      with ⟨popped, deg, hpopped, hinv⟩
    refine Or.inr ⟨hcounted, popped, deg, hinv, ?_⟩
    simp only [executionOrder, hlinks, hsuccessors, hpopped, Option.bind_eq_bind, Option.bind_some]
    split <;> rfl
  · exact Or.inl ⟨hfull, by simp [executionOrder, hnone]⟩

theorem hasCycle_iff : g.hasCycle order = some true ↔ ∃ e, g.executionOrder order = some (.error e) := by
  unfold hasCycle
  rcases g.executionOrder order with _ | _ | _ <;> simp

theorem card_names_le : g.names.card ≤ g.repos.length := by
  calc
    g.names.card ≤ (g.repos.map RepoId.name).length := List.toFinset_card_le _
    _ = g.repos.length := List.length_map _

/-- The names are as many as the repos when none is listed twice. -/
theorem card_names_eq_iff : g.names.card = g.repos.length ↔ g.repos.Nodup := by
  have hinj : Function.Injective RepoId.name := by
    rintro ⟨a⟩ ⟨b⟩ h
    exact congrArg RepoId.mk h
  rw [← List.nodup_map_iff hinj, names, ← List.length_map RepoId.name]
  exact Multiset.toFinset_card_eq_card_iff_nodup (m := (g.repos.map RepoId.name : Multiset String))

variable {g order}

theorem idxOf_map_mk (l : List String) (n : String) : (l.map RepoId.mk).idxOf ⟨n⟩ = l.idxOf n := by
  have htest : ((· == RepoId.mk n) ∘ RepoId.mk) = (· == n) := by
    funext m
    rw [Function.comp_apply, Bool.eq_iff_iff, beq_iff_eq, beq_iff_eq, RepoId.mk.injEq]
  rw [List.idxOf, List.findIdx_map, htest, List.idxOf]

section Popped

variable {popped : List String} {deg : Digraph.Counters String}
  (h : Digraph.DrainInv g.successors g.names popped deg [])

include h

/-- The closing test passes exactly for graphs without a cycle whose repos are distinct. -/
theorem length_popped_iff :
    popped.length = g.repos.length ↔ g.repos.Nodup ∧ Digraph.Acyclic g.Edge := by
  have hcard := h.length_eq_iff g.within_successors
  rw [succ_successors] at hcard
  rw [← card_names_eq_iff, ← hcard]
  have hpopped := h.length_done_le
  have hnames := g.card_names_le
  omega

theorem topological_popped (hacyclic : Digraph.Acyclic g.Edge) :
    g.Topological (popped.map RepoId.mk) := by
  have hnodup : popped.Nodup := (List.nodup_append.1 h.nodup).1
  have hlength : popped.length = g.names.card := by
    rw [h.length_eq_iff g.within_successors, succ_successors]
    exact hacyclic
  have hall : popped.toFinset = g.names := by
    refine Finset.eq_of_subset_of_card_le ?_ ?_
    · intro n hn
      exact h.mem n (List.mem_append_left _ (List.mem_toFinset.1 hn))
    · rw [List.toFinset_card_of_nodup hnodup, hlength]
  have hmem (n : String) : n ∈ popped ↔ n ∈ g.names := by
    rw [← hall, List.mem_toFinset]
  have hinj : Function.Injective RepoId.mk := fun _ _ => RepoId.mk.inj
  refine ⟨hnodup.map hinj, ?_, ?_⟩
  · rintro ⟨n⟩
    simp only [List.mem_map, RepoId.mk.injEq, exists_eq_right, hmem, names, List.mem_toFinset]
    constructor
    · rintro ⟨⟨m⟩, hm, rfl⟩
      exact hm
    · intro hn
      exact ⟨⟨n⟩, hn, rfl⟩
  · intro a b hedge
    have hb : b ∈ popped := (hmem b).2 hedge.2.1
    have hlt := (h.idxOf_lt hb ((mem_successors g).2 hedge)).2
    rwa [idxOf_map_mk, idxOf_map_mk]

end Popped

/-- The documented order comes out exactly when no repo is listed twice, or there is a cycle, and no
counter passes `u32::MAX`. -/
theorem executionOrder_iff (g : CrossRepoGraph) (order : HashOrders) :
    g.Ordered order ↔ (g.repos.Nodup ∨ ¬ Digraph.Acyclic g.Edge) ∧
      Counted g.names g.dependencies := by
  rcases executionOrder_eq g order with ⟨hfull, hnone⟩ | ⟨hcounted, popped, deg, hinv, hrun⟩
  · exact iff_of_false (fun h => h.returns hnone) (fun h => hfull h.2)
  have hlength := length_popped_iff hinv
  have herror : (∃ e, g.executionOrder order = some (.error e)) ↔
      ¬ (g.repos.Nodup ∧ Digraph.Acyclic g.Edge) := by
    rw [hrun, ← hlength]
    by_cases heq : popped.length = g.repos.length <;> simp [heq]
  constructor
  · intro h
    refine ⟨?_, hcounted⟩
    -- A repo listed twice makes the closing test fail without a cycle.
    by_contra hnot
    have := herror.symm.trans h.error
    tauto
  · rintro ⟨hdistinct, _⟩
    have hcyclic : (∃ e, g.executionOrder order = some (.error e)) ↔
        ¬ Digraph.Acyclic g.Edge := by
      rw [herror]
      tauto
    refine ⟨by simp [hrun], hcyclic, ?_, (hasCycle_iff g order).trans hcyclic⟩
    intro ids hids
    rw [hrun] at hids
    by_cases heq : popped.length = g.repos.length
    · simp only [heq, ne_eq, not_true_eq_false, if_false, Option.some.injEq, Except.ok.injEq] at hids
      subst hids
      exact topological_popped hinv (hlength.1 heq).2
    · simp [heq] at hids

/-- A repo that is listed twice, with no dependency at all. -/
def listedTwice : CrossRepoGraph where
  repos := [⟨"org/a"⟩, ⟨"org/a"⟩]
  dependencies := []

theorem not_ordered_listedTwice :
    ¬ ∀ (g : CrossRepoGraph) (order : HashOrders), g.Ordered order := by
  intro h
  have hspec := h listedTwice ⟨Iteration.sorted String, Iteration.sorted String⟩
  have hrun : listedTwice.executionOrder ⟨Iteration.sorted String, Iteration.sorted String⟩ =
      some (.error "cycle detected in repo dependencies") := by
    decide +kernel
  refine hspec.error.1 ⟨_, hrun⟩ fun a hcycle => ?_
  rcases Relation.TransGen.head'_iff.1 hcycle with ⟨b, ⟨_, _, d, hd, _⟩, _⟩
  exact absurd hd List.not_mem_nil

end Order

end CrossRepoGraph
end MultiRepo
end Aivcs
