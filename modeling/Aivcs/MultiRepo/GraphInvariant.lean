import Aivcs.MultiRepo.Graph

/-!
# MultiRepo.GraphInvariant — the edges stay acyclic and a rejected edge leaves no trace

`WellFormed` is kept by both mutators.  The edge of `add_dependency` is inserted before the search
and taken out again when the search comes back to where it started; since the graph was acyclic
before, the edge was new then, and the removal restores the very same maps.
-/

namespace Aivcs
namespace MultiRepo
namespace RepoDependencyGraph

open Aivcs.Lib
open Relation

variable {g g' : RepoDependencyGraph} {order : HashOrder} {d e a b : String}

/-- The ids that depend on `id` directly. -/
def dependentSet (g : RepoDependencyGraph) (id : String) : Finset String :=
  (g.downstream.lookup id).getD ∅

/-- The ids that `id` depends on directly. -/
def dependencySet (g : RepoDependencyGraph) (id : String) : Finset String :=
  (g.upstream.lookup id).getD ∅

/-- `b` depends on `a`. -/
def Edge (g : RepoDependencyGraph) (a b : String) : Prop :=
  b ∈ g.dependentSet a

/-- What every call keeps. -/
structure WellFormed (g : RepoDependencyGraph) : Prop where
  ids : ∀ id node, g.nodes.lookup id = some node → node.repoId = id
  downstream_keys : ∀ id, id ∈ g.downstream ↔ id ∈ g.nodes
  upstream_keys : ∀ id, id ∈ g.upstream ↔ id ∈ g.nodes
  converse : ∀ a b, b ∈ g.dependentSet a ↔ a ∈ g.dependencySet b
  acyclic : Digraph.Acyclic g.Edge

theorem mem_of_mem_getD_lookup {m : HashMap String (Finset String)} {x y : String}
    (h : x ∈ (m.lookup y).getD ∅) : y ∈ m := by
  cases hy : m.lookup y with
  | none =>
      simp [hy] at h
  | some s =>
      exact Finmap.mem_of_lookup_eq_some hy

/-- Both ends of an edge are registered. -/
theorem WellFormed.registered (hg : g.WellFormed) (h : g.Edge a b) : a ∈ g.nodes ∧ b ∈ g.nodes := by
  constructor
  · exact (hg.downstream_keys a).mp (mem_of_mem_getD_lookup h)
  · exact (hg.upstream_keys b).mp (mem_of_mem_getD_lookup ((hg.converse a b).mp h))

theorem mem_dependents : b ∈ g.dependents order a ↔ g.Edge a b := by
  unfold dependents Edge dependentSet
  cases g.downstream.lookup a with
  | none =>
      simp
  | some ids =>
      simp [(order.dependents a).mem_list]

theorem succ_dependents (g : RepoDependencyGraph) (order : HashOrder) :
    Digraph.Succ (g.dependents order) = g.Edge := by
  funext a b
  exact propext mem_dependents

theorem dependents_nodup (id : String) : (g.dependents order id).Nodup := by
  unfold dependents
  cases g.downstream.lookup id with
  | none =>
      exact List.nodup_nil
  | some ids =>
      exact (order.dependents id).nodup ids

/-! ## Registering a node -/

theorem dependentSet_addNode (node : RepoNode) (id : String) :
    (g.addNode node).dependentSet id = g.dependentSet id := by
  unfold dependentSet addNode
  rw [HashMap.lookup_orInsert]
  split
  · next h =>
    rw [h]
    rfl
  · rfl

theorem dependencySet_addNode (node : RepoNode) (id : String) :
    (g.addNode node).dependencySet id = g.dependencySet id := by
  unfold dependencySet addNode
  rw [HashMap.lookup_orInsert]
  split
  · next h =>
    rw [h]
    rfl
  · rfl

theorem edge_addNode (node : RepoNode) : (g.addNode node).Edge = g.Edge := by
  funext a b
  simp only [Edge, dependentSet_addNode]

theorem WellFormed.new : WellFormed RepoDependencyGraph.new := by
  refine ⟨?_, ?_, ?_, ?_, ?_⟩
  · intro id node h
    simp [RepoDependencyGraph.new] at h
  · simp [RepoDependencyGraph.new, Finmap.notMem_empty]
  · simp [RepoDependencyGraph.new, Finmap.notMem_empty]
  · simp [RepoDependencyGraph.new, dependentSet, dependencySet]
  · intro v hv
    obtain ⟨w, hw, _⟩ := TransGen.head'_iff.mp hv
    simp [Edge, dependentSet, RepoDependencyGraph.new] at hw

theorem WellFormed.addNode (hg : g.WellFormed) (node : RepoNode) : (g.addNode node).WellFormed := by
  have hmem {V : Type} (m : HashMap String V) (v : V) (id : String) :
      id ∈ m.orInsert node.repoId v ↔ id = node.repoId ∨ id ∈ m := by
    unfold HashMap.orInsert
    split
    · next h =>
      constructor
      · exact Or.inr
      · rintro (rfl | h')
        · exact h
        · exact h'
    · exact Finmap.mem_insert
  refine ⟨?_, ?_, ?_, ?_, ?_⟩
  · intro id n h
    simp only [RepoDependencyGraph.addNode, HashMap.lookup_insert_apply] at h
    split at h
    · next hid =>
      rw [hid, ← Option.some.inj h]
    · exact hg.ids id n h
  · intro id
    simp only [RepoDependencyGraph.addNode, hmem, Finmap.mem_insert, hg.downstream_keys]
  · intro id
    simp only [RepoDependencyGraph.addNode, hmem, Finmap.mem_insert, hg.upstream_keys]
  · intro a b
    rw [dependentSet_addNode, dependencySet_addNode]
    exact hg.converse a b
  · rw [edge_addNode]
    exact hg.acyclic

/-! ## Inserting and removing an edge -/

theorem dependentSet_insertEdge (id : String) : (g.insertEdge d e).dependentSet id =
    if id = d then insert e (g.dependentSet d) else g.dependentSet id := by
  unfold dependentSet insertEdge
  rw [HashMap.lookup_upsert]
  split <;> rfl

theorem dependencySet_insertEdge (id : String) : (g.insertEdge d e).dependencySet id =
    if id = e then insert d (g.dependencySet e) else g.dependencySet id := by
  unfold dependencySet insertEdge
  rw [HashMap.lookup_upsert]
  split <;> rfl

theorem edge_insertEdge : (g.insertEdge d e).Edge = Digraph.withEdge g.Edge d e := by
  funext a b
  simp only [Edge, Digraph.withEdge, dependentSet_insertEdge, eq_iff_iff]
  split
  · next h =>
    rw [h, Finset.mem_insert]
    tauto
  · next h =>
    tauto

theorem WellFormed.insertEdge (hg : g.WellFormed) (hd : d ∈ g.nodes) (he : e ∈ g.nodes)
    (hacyclic : ¬ ReflTransGen g.Edge e d) : (g.insertEdge d e).WellFormed := by
  refine ⟨hg.ids, ?_, ?_, ?_, ?_⟩
  · intro id
    simp only [RepoDependencyGraph.insertEdge, HashMap.mem_upsert, hg.downstream_keys]
    exact or_iff_right_of_imp fun h => h ▸ hd
  · intro id
    simp only [RepoDependencyGraph.insertEdge, HashMap.mem_upsert, hg.upstream_keys]
    exact or_iff_right_of_imp fun h => h ▸ he
  · intro a b
    have hold := hg.converse a b
    rw [dependentSet_insertEdge, dependencySet_insertEdge]
    by_cases had : a = d <;> by_cases hbe : b = e
    · subst had hbe
      simp
    · subst had
      simp [hbe, hold]
    · subst hbe
      simp [had, hold]
    · simp [had, hbe, hold]
  · rw [edge_insertEdge]
    exact hg.acyclic.withEdge hacyclic

/-- Taking out an edge that was not there before undoes its insertion. -/
theorem removeEdge_insertEdge (hg : g.WellFormed) (hd : d ∈ g.nodes) (he : e ∈ g.nodes)
    (hnew : ¬ g.Edge d e) : (g.insertEdge d e).removeEdge d e = some g := by
  have herase {m : HashMap String (Finset String)} {x y : String} (hx : x ∈ m)
      (hy : y ∉ (m.lookup x).getD ∅) :
      (m.upsert x ∅ (insert y)).modify? x (Finset.erase · y) = some m := by
    obtain ⟨s, hs⟩ := Finmap.mem_iff.mp hx
    rw [hs, Option.getD_some] at hy
    simp only [HashMap.modify?, HashMap.upsert, Finmap.lookup_insert, hs, Option.getD_some,
      Option.map_some, Finmap.insert_insert, Finset.erase_insert hy, Option.some.injEq]
    apply Finmap.ext_lookup
    intro z
    rw [HashMap.lookup_insert_apply]
    split
    · next hz =>
      rw [hz, hs]
    · rfl
  have hdown := herase ((hg.downstream_keys d).mpr hd) hnew
  have hup := herase ((hg.upstream_keys e).mpr he) fun h => hnew ((hg.converse d e).mpr h)
  simp only [removeEdge, insertEdge, hdown, hup]

/-! ## The call -/

/-- Everything a call on registered nodes can do: it finishes, with the edge in the graph or with
the graph as it was and a closed walk through the edge. -/
theorem addDependency_cases (hg : g.WellFormed) (order : HashOrder) (hd : d ∈ g.nodes)
    (he : e ∈ g.nodes) :
    (¬ ReflTransGen g.Edge e d ∧
      g.addDependency order d e = some (.ok (), g.insertEdge d e)) ∨
    (ReflTransGen g.Edge e d ∧ ∃ mid,
      g.addDependency order d e = some (.error (.dependencyCycle (e :: (mid ++ [e]))), g) ∧
      List.IsChain (Digraph.withEdge g.Edge d e) (e :: (mid ++ [e]))) := by
  have hsucc : Digraph.Succ ((g.insertEdge d e).dependents order) =
      Digraph.withEdge g.Edge d e := by
    rw [succ_dependents, edge_insertEdge]
  have hclosed : ∀ v ∈ g.nodes.keys, ∀ w ∈ (g.insertEdge d e).dependents order v,
      w ∈ g.nodes.keys := by
    intro v _ w hw
    have hedge : Digraph.withEdge g.Edge d e v w := hsucc ▸ hw
    rw [Finmap.mem_keys]
    rcases hedge with hedge | ⟨_, rfl⟩
    · exact (hg.registered hedge).2
    · exact he
  rcases Digraph.findCycle_spec hclosed (Nat.lt_succ_self _) (Finmap.mem_keys.mpr he) with
    ⟨hfind, hnone⟩ | ⟨path, hfind, hcloses, hstart⟩
  · left
    rw [hsucc, Digraph.cycle_withEdge_iff hg.acyclic] at hnone
    refine ⟨hnone, ?_⟩
    have hfind' : (g.insertEdge d e).findCycleThrough order e = some none := hfind
    simp only [addDependency, hd, he, not_true_eq_false, if_false, hfind']
  · right
    obtain ⟨mid, rfl⟩ := hcloses.closed_walk hg.acyclic (fun x y h => hsucc ▸ h) hstart
    have hchain : List.IsChain (Digraph.withEdge g.Edge d e) (e :: (mid ++ [e])) :=
      hsucc ▸ hcloses.chain
    have hreach : ReflTransGen g.Edge e d :=
      (Digraph.cycle_withEdge_iff hg.acyclic).mp (Digraph.transGen_of_isChain hchain)
    refine ⟨hreach, mid, ?_, hchain⟩
    -- an edge that was there before would already close the cycle
    have hnew : ¬ g.Edge d e := fun h => hg.acyclic e (TransGen.tail' hreach h)
    have hfind' : (g.insertEdge d e).findCycleThrough order e =
        some (some (e :: (mid ++ [e]))) := hfind
    simp only [addDependency, hd, he, not_true_eq_false, if_false, hfind',
      removeEdge_insertEdge hg hd he hnew]

theorem addDependency_of_notMem (order : HashOrder) (h : ¬ (d ∈ g.nodes ∧ e ∈ g.nodes)) :
    ∃ repo, g.addDependency order d e = some (.error (.repoNotFound repo), g) := by
  by_cases hd : d ∈ g.nodes
  · have he : e ∉ g.nodes := fun he => h ⟨hd, he⟩
    exact ⟨e, by simp [addDependency, hd, he]⟩
  · exact ⟨d, by simp [addDependency, hd]⟩

/-- One call keeps the graph well formed. -/
theorem WellFormed.addDependency (hg : g.WellFormed) {res : Except MultiRepoError Unit}
    (hcall : g.addDependency order d e = some (res, g')) : g'.WellFormed := by
  by_cases hreg : d ∈ g.nodes ∧ e ∈ g.nodes
  · rcases addDependency_cases hg order hreg.1 hreg.2 with ⟨hnot, hok⟩ | ⟨_, mid, herr, _⟩
    · rw [hok, Option.some.injEq, Prod.mk.injEq] at hcall
      exact hcall.2 ▸ hg.insertEdge hreg.1 hreg.2 hnot
    · rw [herr, Option.some.injEq, Prod.mk.injEq] at hcall
      exact hcall.2 ▸ hg
  · obtain ⟨repo, herr⟩ := addDependency_of_notMem (g := g) order hreg
    rw [herr, Option.some.injEq, Prod.mk.injEq] at hcall
    exact hcall.2 ▸ hg

/-- Any sequence of calls keeps it well formed. -/
theorem Reachable.wellFormed (h : g.Reachable) : g.WellFormed := by
  induction h with
  | new =>
      exact WellFormed.new
  | addNode node _ ih =>
      exact ih.addNode node
  | addDependency _ hcall ih =>
      exact ih.addDependency hcall

/-- The edges of a reachable graph are acyclic, recorded in both directions and between registered
nodes; `add_dependency` always answers, refuses exactly the edges that would close a cycle, names a
closed walk through the refused edge, and leaves the graph as it was whenever it refuses. -/
theorem addDependency_rejects_exactly_cycles (g : RepoDependencyGraph) (hg : g.Reachable) :
    Digraph.Acyclic g.Edge ∧
    (∀ a b, b ∈ g.dependentSet a ↔ a ∈ g.dependencySet b) ∧
    (∀ id, id ∈ g.downstream ∨ id ∈ g.upstream → id ∈ g.nodes) ∧
    (∀ a b, g.Edge a b → a ∈ g.nodes ∧ b ∈ g.nodes) ∧
    ∀ (order : HashOrder) (d e : String), ∃ res g',
      g.addDependency order d e = some (res, g') ∧
      (∀ err, res = .error err → g' = g) ∧
      (d ∈ g.nodes → e ∈ g.nodes →
        ((∃ repos, res = .error (.dependencyCycle repos)) ↔ ReflTransGen g.Edge e d)) ∧
      ∀ repos, res = .error (.dependencyCycle repos) →
        (∃ mid, repos = e :: (mid ++ [e])) ∧ List.IsChain (g.insertEdge d e).Edge repos := by
  have hwf := hg.wellFormed
  refine ⟨hwf.acyclic, hwf.converse, ?_, fun a b => hwf.registered, ?_⟩
  · rintro id (h | h)
    · exact (hwf.downstream_keys id).mp h
    · exact (hwf.upstream_keys id).mp h
  intro order d e
  by_cases hreg : d ∈ g.nodes ∧ e ∈ g.nodes
  · rcases addDependency_cases hwf order hreg.1 hreg.2 with ⟨hnot, hok⟩ | ⟨hreach, mid, herr, hwalk⟩
    · exact ⟨_, _, hok, by simp, by simp [hnot], by simp⟩
    · refine ⟨_, _, herr, by simp, by simp [hreach], ?_⟩
      intro repos hrepos
      obtain rfl : e :: (mid ++ [e]) = repos := by simpa using hrepos
      rw [edge_insertEdge]
      exact ⟨⟨mid, rfl⟩, hwalk⟩
  · obtain ⟨repo, herr⟩ := addDependency_of_notMem (g := g) order hreg
    exact ⟨_, _, herr, by simp, fun hd he => absurd ⟨hd, he⟩ hreg, by simp⟩

/-- Two repos, `web` depending on `api`. -/
def demoGraph : RepoDependencyGraph :=
  ((new.addNode ⟨"api", "API", none⟩).addNode ⟨"web", "Web", none⟩).insertEdge "api" "web"

theorem demoGraph_reachable : demoGraph.Reachable := by
  have hnodes : ((new.addNode ⟨"api", "API", none⟩).addNode ⟨"web", "Web", none⟩).Reachable :=
    (Reachable.new.addNode _).addNode _
  have hcall : ((new.addNode ⟨"api", "API", none⟩).addNode ⟨"web", "Web", none⟩).addDependency
      HashOrder.sorted "api" "web" = some (.ok (), demoGraph) := by rfl
  exact hnodes.addDependency hcall

theorem addDependency_rejects_exactly_cycles_demo : demoGraph.Reachable ∧
    ∀ order, ∃ repos, demoGraph.addDependency order "web" "api" =
      some (.error (.dependencyCycle repos), demoGraph) := by
  refine ⟨demoGraph_reachable, fun order => ?_⟩
  obtain ⟨_, _, _, _, hcall⟩ := addDependency_rejects_exactly_cycles demoGraph demoGraph_reachable
  obtain ⟨res, g', heq, hsame, hiff, _⟩ := hcall order "web" "api"
  have hweb : "web" ∈ demoGraph.nodes := by decide
  have hapi : "api" ∈ demoGraph.nodes := by decide
  have hedge : demoGraph.Edge "api" "web" := by
    unfold Edge
    decide
  obtain ⟨repos, hres⟩ := (hiff hweb hapi).mpr (ReflTransGen.single hedge)
  exact ⟨repos, by rw [heq, hres, hsame _ hres]⟩

end RepoDependencyGraph
end MultiRepo
end Aivcs
