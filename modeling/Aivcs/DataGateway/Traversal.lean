import Aivcs.Lib.SimplePaths
import Aivcs.DataGateway.RunDag

/-!
# DataGateway.Traversal — downstream and upstream traversals of a dependency graph

`get_downstream_dag` and `get_upstream_blockers` follow the `depends_on` edges one way and the other.  Their
rows are paths: a row is extended by a neighbour that is not on its path, up to a depth.

* `rows_spec` — the rows are the routes of `Lib.SimplePaths`;
* `traversals_complete` — both queries end and show what walks of bounded length reach, each node with its
  distance as least depth.
-/

namespace Aivcs
namespace DataGateway

open Aivcs.Lib RecursiveQuery SimplePaths

/-! ## The queries -/

variable {P : Type}

structure GraphNode (P : Type) where
  id : Uuid
  name : String
  payload : P

structure GraphEdge where
  parentId : Uuid
  childId : Uuid
  relationType : String
  deriving DecidableEq

structure Graph (P : Type) where
  nodes : List (GraphNode P)
  edges : List GraphEdge

structure TraversalNode (P : Type) where
  id : Uuid
  name : String
  payload : P
  depth : Nat
  deriving DecidableEq

/-- A row of the recursive tables. -/
structure TraversalRow (P : Type) extends TraversalNode P where
  path : List Uuid

def GraphNode.row (n : GraphNode P) (depth : Nat) (path : List Uuid) : TraversalRow P where
  id := n.id
  name := n.name
  payload := n.payload
  depth := depth
  path := path

namespace Graph

variable (g : Graph P)

/-- The nodes at the other end of the `depends_on` edges of a node. -/
def neighbors (here there : GraphEdge → Uuid) (id : Uuid) : List (GraphNode P) :=
  (g.edges.filter fun e => id = here e && e.relationType = "depends_on").flatMap fun e =>
    g.nodes.filter fun n => there e = n.id

/-- The recursive member of both queries. -/
def extend (here there : GraphEdge → Uuid) (maxDepth : Int32) (row : TraversalRow P) :
    Except String (List (TraversalRow P)) :=
  ((g.neighbors here there row.id).filter fun n =>
      n.id ∉ row.path && (row.depth : Int) < maxDepth.toInt).mapM fun n =>
    (nextDepth row.depth).map fun depth => n.row depth (row.path ++ [n.id])

/-- The anchor of `task_dag`. -/
def rootTask (rootId : Uuid) : List (TraversalRow P) :=
  (g.nodes.filter fun n => n.id = rootId).map fun n => n.row 1 [n.id]

/-- The anchor of `upstream_blockers`. -/
def parentTasks (targetId : Uuid) : List (TraversalRow P) :=
  (g.nodes.filter fun target => target.id = targetId).flatMap fun target =>
    (g.neighbors GraphEdge.childId GraphEdge.parentId target.id).map fun n => n.row 1 [n.id]

/-- A query over nodes; a path visits none twice, so there are no more rounds than nodes. -/
def traverse (here there : GraphEdge → Uuid) (maxDepth : Int32) (anchor : List (TraversalRow P)) :
    Option (Except String (List (TraversalRow P))) :=
  unionAll (g.extend here there maxDepth) (g.nodes.length + 1) anchor

/-- `ORDER BY depth ASC`. -/
def getDownstreamDag (rootId : Uuid) (maxDepth : Int32) :
    Option (Except String (List (TraversalNode P))) :=
  (g.traverse GraphEdge.parentId GraphEdge.childId maxDepth (g.rootTask rootId)).map fun r =>
    r.map fun rows => (rows.map (·.toTraversalNode)).insertionSort fun a b => a.depth ≤ b.depth

/-- `SELECT DISTINCT`, `ORDER BY depth DESC`. -/
def getUpstreamBlockers [DecidableEq P] (targetId : Uuid) (maxDepth : Int32) :
    Option (Except String (List (TraversalNode P))) :=
  (g.traverse GraphEdge.childId GraphEdge.parentId maxDepth (g.parentTasks targetId)).map fun r =>
    r.map fun rows => (rows.map (·.toTraversalNode)).dedup.insertionSort fun a b => b.depth ≤ a.depth

/-! ## What the queries are for -/

def ids : List Uuid :=
  g.nodes.map GraphNode.id

/-- A `depends_on` edge between two nodes, seen from one of its ends. -/
def Link (here there : GraphEdge → Uuid) (a b : Uuid) : Prop :=
  a ∈ g.ids ∧ b ∈ g.ids ∧ ∃ e ∈ g.edges, here e = a ∧ there e = b ∧ e.relationType = "depends_on"

/-- An edge from `a` to `b`. -/
def DependsOn (a b : Uuid) : Prop :=
  g.Link GraphEdge.parentId GraphEdge.childId a b

end Graph

/-- The nodes within reach are shown, and the least depth of each is its distance; `dist y d` says that `y`
can be reached at distance `d`. -/
structure ShowsNearest (dist : Uuid → Nat → Prop) (maxDepth : Int) (nodes : List (TraversalNode P)) :
    Prop where
  ids : ∀ y, y ∈ nodes.map TraversalNode.id ↔ ∃ d : Nat, dist y d ∧ (d : Int) ≤ maxDepth
  least : ∀ y ∈ nodes.map TraversalNode.id, ∀ d, IsLeast {d | dist y d} d →
    IsLeast {d | ∃ n ∈ nodes, n.id = y ∧ n.depth = d} d

/-- The ids of an answer. -/
def answerIds (r : Option (Except String (List (TraversalNode P)))) : List Uuid :=
  match r with
  | some (.ok nodes) => nodes.map TraversalNode.id
  | _ => []

/-! ## Rows are routes -/

namespace Graph

section Rows

variable {g : Graph P} {here there : GraphEdge → Uuid} {maxDepth : Int32}

theorem mem_neighbors {id : Uuid} {n : GraphNode P} : n ∈ g.neighbors here there id ↔
    n ∈ g.nodes ∧ ∃ e ∈ g.edges, here e = id ∧ there e = n.id ∧ e.relationType = "depends_on" := by
  simp only [neighbors, List.mem_flatMap, List.mem_filter, Bool.and_eq_true, decide_eq_true_eq]
  constructor
  · rintro ⟨e, ⟨he, rfl, hrel⟩, hn, hthere⟩
    exact ⟨hn, e, he, rfl, hthere, hrel⟩
  · rintro ⟨hn, e, he, rfl, hthere, hrel⟩
    exact ⟨e, ⟨he, rfl, hrel⟩, hn, hthere⟩

variable (g here there maxDepth) in
/-- What `extend` finds. -/
def next (row : TraversalRow P) : List (TraversalRow P) :=
  ((g.neighbors here there row.id).filter fun n =>
      n.id ∉ row.path && (row.depth : Int) < maxDepth.toInt).map fun n =>
    n.row (row.depth + 1) (row.path ++ [n.id])

/-- A depth below an `i32` can be counted up. -/
theorem extend_eq (row : TraversalRow P) :
    g.extend here there maxDepth row = .ok (g.next here there maxDepth row) := by
  refine mapM_nextDepth_eq_ok_iff.2 ⟨rfl, or_iff_not_imp_left.2 fun hne => ?_⟩
  rcases List.exists_mem_of_ne_nil _ hne with ⟨n, hn⟩
  have hlt : (row.depth : Int) < maxDepth.toInt := by
    simpa using (Bool.and_eq_true_iff.1 (List.mem_filter.1 hn).2).2
  have := maxDepth.toInt_lt
  omega

theorem mem_next {row row' : TraversalRow P} : row' ∈ g.next here there maxDepth row ↔
    ∃ n ∈ g.nodes, (∃ e ∈ g.edges, here e = row.id ∧ there e = n.id ∧
      e.relationType = "depends_on") ∧ n.id ∉ row.path ∧ (row.depth : Int) < maxDepth.toInt ∧
      row' = n.row (row.depth + 1) (row.path ++ [n.id]) := by
  simp only [next, List.mem_map, List.mem_filter, mem_neighbors, Bool.and_eq_true, decide_eq_true_eq]
  constructor
  · rintro ⟨n, ⟨⟨hn, hedge⟩, hnew, hlt⟩, rfl⟩
    exact ⟨n, hn, hedge, hnew, hlt, rfl⟩
  · rintro ⟨n, hn, hedge, hnew, hlt, rfl⟩
    exact ⟨n, ⟨⟨hn, hedge⟩, hnew, hlt⟩, rfl⟩

/-- The rows a query starts from: one for each of the ids `S`, at least. -/
structure Anchor (g : Graph P) (S : Uuid → Prop) (anchor : List (TraversalRow P)) : Prop where
  sound : ∀ row ∈ anchor, S row.id ∧ row.depth = 1 ∧ row.path = [row.id]
  complete : ∀ v, S v → ∃ row ∈ anchor, row.id = v
  mem : ∀ v, S v → v ∈ g.ids

variable {S : Uuid → Prop} {anchor : List (TraversalRow P)} (hS : Anchor g S anchor)

include hS

theorem Anchor.mem_of_route {q : List Uuid} {v : Uuid} (h : Route (g.Link here there) S q v) :
    v ∈ g.ids := by
  cases h with
  | start h => exact hS.mem v h
  | step _ huv _ => exact huv.2.1

/-- A row of round `k` is a route of `k` edges. -/
theorem Anchor.route_of_mem {k : Nat} {row : TraversalRow P}
    (h : row ∈ rowsAt (g.next here there maxDepth) anchor k) :
    ∃ q, Route (g.Link here there) S q row.id ∧ q.length = k ∧ row.path = q ++ [row.id] ∧
      row.depth = k + 1 ∧ (k = 0 ∨ ((k + 1 : Nat) : Int) ≤ maxDepth.toInt) := by
  induction k generalizing row with
  | zero =>
      rcases hS.sound row h with ⟨hstart, hdepth, hpath⟩
      exact ⟨[], Route.start hstart, rfl, hpath, hdepth, Or.inl rfl⟩
  | succ k ih =>
      rcases List.mem_flatMap.1 h with ⟨before, hbefore, hrow⟩
      rcases ih hbefore with ⟨q, hroute, rfl, hpath, hdepth, _⟩
      rcases mem_next.1 hrow with ⟨n, hn, ⟨e, he, hhere, hthere, hrel⟩, hnew, hlt, rfl⟩
      have hlink : g.Link here there before.id n.id :=
        ⟨hS.mem_of_route hroute, List.mem_map_of_mem hn, e, he, hhere, hthere, hrel⟩
      refine ⟨q ++ [before.id], Route.step hroute hlink (hpath ▸ hnew), by simp, ?_, ?_, Or.inr ?_⟩
      · rw [← hpath]
        rfl
      · rw [← hdepth]
        rfl
      · rw [hdepth] at hlt
        omega

/-- A route within the depth is a row of its round. -/
theorem Anchor.mem_of_route_le {q : List Uuid} {v : Uuid} (h : Route (g.Link here there) S q v)
    (hle : ((q.length + 1 : Nat) : Int) ≤ maxDepth.toInt) :
    ∃ row ∈ rowsAt (g.next here there maxDepth) anchor q.length,
      row.id = v ∧ row.path = q ++ [v] ∧ row.depth = q.length + 1 := by
  induction h with
  | start h =>
      rcases hS.complete _ h with ⟨row, hrow, rfl⟩
      rcases hS.sound row hrow with ⟨_, hdepth, hpath⟩
      exact ⟨row, hrow, rfl, hpath, hdepth⟩
  | @step q u v _ hlink hnew ih =>
      rw [List.length_append, List.length_singleton] at hle ⊢
      rcases ih (by omega) with ⟨row, hrow, rfl, hpath, hdepth⟩
      rcases hlink with ⟨_, hv, e, he, hhere, hthere, hrel⟩
      rcases List.mem_map.1 hv with ⟨n, hn, rfl⟩
      have hlt : (row.depth : Int) < maxDepth.toInt := by
        rw [hdepth]
        omega
      refine ⟨n.row (row.depth + 1) (row.path ++ [n.id]), List.mem_flatMap.2 ⟨row, hrow,
        mem_next.2 ⟨n, hn, ⟨e, he, hhere, hthere, hrel⟩, hpath ▸ hnew, hlt, rfl⟩⟩, rfl, ?_, ?_⟩
      · rw [← hpath]
        rfl
      · rw [← hdepth]
        rfl

/-- The query ends, and its rows are the routes within the depth. -/
theorem Anchor.rows_spec (here there : GraphEdge → Uuid) (hmax : 1 ≤ maxDepth.toInt) :
    ∃ rows, g.traverse here there maxDepth anchor = some (.ok rows) ∧
      ∀ y d, (∃ row ∈ rows, row.id = y ∧ row.depth = d) ↔
        ∃ q, Route (g.Link here there) S q y ∧ d = q.length + 1 ∧ (d : Int) ≤ maxDepth.toInt := by
  have hend : rowsAt (g.next here there maxDepth) anchor g.nodes.length = [] := by
    refine List.eq_nil_iff_forall_not_mem.2 fun row hrow => ?_
    rcases hS.route_of_mem hrow with ⟨q, hroute, hlength, _⟩
    have hlt := hroute.length_lt hS.mem fun u v huv => huv.2.1
    rw [hlength, ids, List.length_map] at hlt
    exact Nat.lt_irrefl _ hlt
  refine ⟨_, unionAll_eq (fun k row _ => extend_eq row) hend (Nat.lt_succ_self _), fun y d => ?_⟩
  simp only [List.mem_flatMap, List.mem_range]
  constructor
  · rintro ⟨row, ⟨k, _, hrow⟩, rfl, rfl⟩
    rcases hS.route_of_mem hrow with ⟨q, hroute, rfl, _, hdepth, hbound⟩
    refine ⟨q, hroute, hdepth, ?_⟩
    rcases hbound with hzero | hle
    · rw [hdepth, hzero]
      simpa using hmax
    · rwa [hdepth]
  · rintro ⟨q, hroute, rfl, hle⟩
    rcases hS.mem_of_route_le hroute hle with ⟨row, hrow, hid, _, hdepth⟩
    refine ⟨row, ⟨q.length, ?_, hrow⟩, hid, hdepth⟩
    have hlt := hroute.length_lt hS.mem fun u v huv => huv.2.1
    rwa [ids, List.length_map] at hlt

end Rows

/-! ## What the answers show -/

section Answers

variable {r : Uuid → Uuid → Prop} {S : Uuid → Prop} {nodes : List (TraversalNode P)} {maxDepth : Int}

/-- Answers that hold the routes from `S` show what walks from `S` reach. -/
theorem showsNearest_of_routes {dist : Uuid → Nat → Prop}
    (hnodes : ∀ y d, (∃ n ∈ nodes, n.id = y ∧ n.depth = d) ↔
      ∃ q, Route r S q y ∧ d = q.length + 1 ∧ (d : Int) ≤ maxDepth)
    (hdist : ∀ y d, dist y d ↔ ∃ k, d = k + 1 ∧ ∃ s, S s ∧ Walk r k s y) :
    ShowsNearest dist maxDepth nodes := by
  have hmem (y : Uuid) : y ∈ nodes.map TraversalNode.id ↔
      ∃ q, Route r S q y ∧ ((q.length + 1 : Nat) : Int) ≤ maxDepth := by
    rw [List.mem_map]
    constructor
    · rintro ⟨n, hn, hid⟩
      rcases (hnodes y n.depth).1 ⟨n, hn, hid, rfl⟩ with ⟨q, hroute, hdepth, hle⟩
      exact ⟨q, hroute, hdepth ▸ hle⟩
    · rintro ⟨q, hroute, hle⟩
      rcases (hnodes y (q.length + 1)).2 ⟨q, hroute, rfl, hle⟩ with ⟨n, hn, hid, _⟩
      exact ⟨n, hn, hid⟩
  constructor
  · intro y
    rw [hmem y]
    constructor
    · rintro ⟨q, hroute, hle⟩
      exact ⟨q.length + 1, (hdist y _).2 ⟨q.length, rfl, hroute.walk⟩, hle⟩
    · rintro ⟨d, hd, hle⟩
      rcases (hdist y d).1 hd with ⟨k, rfl, s, hs, hwalk⟩
      rcases hwalk.exists_route hs with ⟨q, hroute, hlength⟩
      exact ⟨q, hroute, by omega⟩
  · rintro y hy d ⟨hd, hleast⟩
    rcases (hdist y d).1 hd with ⟨k, rfl, s, hs, hwalk⟩
    have hshortest : IsLeast {k | ∃ s, S s ∧ Walk r k s y} k := by
      refine ⟨⟨s, hs, hwalk⟩, ?_⟩
      rintro j ⟨t, ht, hother⟩
      exact Nat.le_of_succ_le_succ (hleast ((hdist y (j + 1)).2 ⟨j, rfl, t, ht, hother⟩))
    rcases isLeast_route hshortest with ⟨⟨q, hroute, rfl⟩, hlower⟩
    constructor
    · -- The answer has a route to `y`, and this one is no longer.
      rcases (hmem y).1 hy with ⟨q', hroute', hle⟩
      have hshorter : q.length ≤ q'.length := hlower ⟨q', hroute', rfl⟩
      exact (hnodes y _).2 ⟨q, hroute, rfl, by omega⟩
    · rintro d hnode
      rcases (hnodes y d).1 hnode with ⟨q', hroute', rfl, _⟩
      exact Nat.succ_le_succ (hlower ⟨q', hroute', rfl⟩)

end Answers

section Queries

variable {g : Graph P} {x : Uuid}

theorem link_swap : g.Link GraphEdge.childId GraphEdge.parentId = Function.swap g.DependsOn := by
  funext a b
  refine propext ⟨?_, ?_⟩
  · rintro ⟨ha, hb, e, he, hhere, hthere, hrel⟩
    exact ⟨hb, ha, e, he, hthere, hhere, hrel⟩
  · rintro ⟨hb, ha, e, he, hthere, hhere, hrel⟩
    exact ⟨ha, hb, e, he, hhere, hthere, hrel⟩

theorem anchor_rootTask (hx : x ∈ g.ids) : Anchor g (fun v => v = x) (g.rootTask x) where
  sound := by
    intro row hrow
    rcases List.mem_map.1 hrow with ⟨n, hn, rfl⟩
    exact ⟨of_decide_eq_true (List.mem_filter.1 hn).2, rfl, rfl⟩
  complete := by
    rintro v rfl
    rcases List.mem_map.1 hx with ⟨n, hn, rfl⟩
    exact ⟨n.row 1 [n.id], List.mem_map.2 ⟨n, List.mem_filter.2 ⟨hn, by simp⟩, rfl⟩, rfl⟩
  mem := by
    rintro v rfl
    exact hx

theorem anchor_parentTasks (hx : x ∈ g.ids) :
    Anchor g (fun v => g.DependsOn v x) (g.parentTasks x) where
  sound := by
    intro row hrow
    rcases List.mem_flatMap.1 hrow with ⟨target, htarget, hrow⟩
    rcases List.mem_map.1 hrow with ⟨n, hn, rfl⟩
    obtain rfl : target.id = x := of_decide_eq_true (List.mem_filter.1 htarget).2
    rcases mem_neighbors.1 hn with ⟨hmem, e, he, hchild, hparent, hrel⟩
    exact ⟨⟨List.mem_map_of_mem hmem, hx, e, he, hparent, hchild, hrel⟩, rfl, rfl⟩
  complete := by
    rintro v ⟨hv, _, e, he, hparent, hchild, hrel⟩
    rcases List.mem_map.1 hv with ⟨n, hn, rfl⟩
    rcases List.mem_map.1 hx with ⟨target, htarget, rfl⟩
    refine ⟨n.row 1 [n.id], List.mem_flatMap.2 ⟨target, List.mem_filter.2 ⟨htarget, by simp⟩, ?_⟩, rfl⟩
    exact List.mem_map.2 ⟨n, mem_neighbors.2 ⟨hn, e, he, hchild, hparent, hrel⟩, rfl⟩
  mem := by
    rintro v hv
    exact hv.1

/-- `y` is so many edges below `x`, and one more is its depth. -/
def BelowAt (g : Graph P) (x y : Uuid) (d : Nat) : Prop :=
  ∃ n, d = n + 1 ∧ Walk g.DependsOn n x y

/-- `x` is so many edges below `y`, at least one. -/
def AboveAt (g : Graph P) (x y : Uuid) (d : Nat) : Prop :=
  1 ≤ d ∧ Walk g.DependsOn d y x

theorem getDownstreamDag_spec (hx : x ∈ g.ids) {maxDepth : Int32} (hmax : 1 ≤ maxDepth.toInt) :
    ∃ nodes, g.getDownstreamDag x maxDepth = some (.ok nodes) ∧
      ShowsNearest (g.BelowAt x) maxDepth.toInt nodes := by
  rcases (anchor_rootTask hx).rows_spec GraphEdge.parentId GraphEdge.childId hmax
    with ⟨rows, hrows, hroutes⟩
  refine ⟨(rows.map (·.toTraversalNode)).insertionSort fun a b => a.depth ≤ b.depth,
    by rw [getDownstreamDag, hrows]; rfl, ?_⟩
  refine showsNearest_of_routes (r := g.DependsOn) (S := fun v => v = x) ?_ ?_
  · intro y d
    refine Iff.trans ?_ (hroutes y d)
    simp [(List.perm_insertionSort _ _).mem_iff]
  · intro y d
    simp [BelowAt]

theorem getUpstreamBlockers_spec [DecidableEq P] (hx : x ∈ g.ids) {maxDepth : Int32}
    (hmax : 1 ≤ maxDepth.toInt) :
    ∃ nodes, g.getUpstreamBlockers x maxDepth = some (.ok nodes) ∧
      ShowsNearest (g.AboveAt x) maxDepth.toInt nodes := by
  rcases (anchor_parentTasks hx).rows_spec GraphEdge.childId GraphEdge.parentId hmax
    with ⟨rows, hrows, hroutes⟩
  rw [link_swap] at hroutes
  refine ⟨(rows.map (·.toTraversalNode)).dedup.insertionSort fun a b => b.depth ≤ a.depth,
    by rw [getUpstreamBlockers, hrows]; rfl, ?_⟩
  refine showsNearest_of_routes (r := Function.swap g.DependsOn) (S := fun v => g.DependsOn v x) ?_ ?_
  · intro y d
    rw [← hroutes y d]
    simp [(List.perm_insertionSort _ _).mem_iff]
  · intro y d
    simp only [AboveAt, Walk.swap_iff]
    constructor
    · rintro ⟨hpos, hwalk⟩
      obtain ⟨k, rfl⟩ : ∃ k, d = k + 1 := Nat.exists_eq_succ_of_ne_zero (Nat.one_le_iff_ne_zero.1 hpos)
      rcases Walk.succ_iff.1 hwalk with ⟨u, hyu, hux⟩
      exact ⟨k, rfl, u, hux, hyu⟩
    · rintro ⟨k, rfl, u, hux, hyu⟩
      exact ⟨Nat.succ_le_succ (Nat.zero_le k), hyu.tail hux⟩

/-- Both queries end and show what is within reach; the one from `x` shows `y` exactly when the one from
`y`, with one less, shows `x`. -/
theorem traversals_complete [DecidableEq P] (g : Graph P) (x : Uuid) (hx : x ∈ g.ids) (maxDepth : Int32)
    (hmax : 1 ≤ maxDepth.toInt) :
    (∃ nodes, g.getDownstreamDag x maxDepth = some (.ok nodes) ∧
      ShowsNearest (g.BelowAt x) maxDepth.toInt nodes) ∧
    (∃ nodes, g.getUpstreamBlockers x maxDepth = some (.ok nodes) ∧
      ShowsNearest (g.AboveAt x) maxDepth.toInt nodes) ∧
    ∀ y ∈ g.ids, y ≠ x → ∀ d : Int32, 1 ≤ d.toInt → d.toInt + 1 = maxDepth.toInt →
      (y ∈ answerIds (g.getDownstreamDag x maxDepth) ↔ x ∈ answerIds (g.getUpstreamBlockers y d)) := by
  refine ⟨getDownstreamDag_spec hx hmax, getUpstreamBlockers_spec hx hmax, ?_⟩
  intro y hy hne d hd hsucc
  rcases getDownstreamDag_spec hx hmax with ⟨down, hdown, hbelow⟩
  rcases getUpstreamBlockers_spec hy hd with ⟨up, hup, habove⟩
  rw [hdown, hup, answerIds, answerIds, hbelow.ids y, habove.ids x]
  constructor
  · rintro ⟨_, ⟨n, rfl, hwalk⟩, hle⟩
    have hpos : n ≠ 0 := by
      rintro rfl
      exact hne (Walk.zero_iff.1 hwalk).symm
    exact ⟨n, ⟨Nat.one_le_iff_ne_zero.2 hpos, hwalk⟩, by omega⟩
  · rintro ⟨n, ⟨_, hwalk⟩, hle⟩
    exact ⟨n + 1, ⟨n, rfl, hwalk⟩, by omega⟩

/-- Two tasks that depend on each other. -/
def mutualTasks : Graph String where
  nodes := [⟨"a", "build", "null"⟩, ⟨"b", "test", "null"⟩]
  edges := [⟨"a", "b", "depends_on"⟩, ⟨"b", "a", "depends_on"⟩, ⟨"b", "b", "blocks"⟩]

-- A task in a cycle is one of its own blockers.
example : answerIds (mutualTasks.getUpstreamBlockers "a" 20) = ["a", "b"] := by
  decide

theorem traversals_complete_mutualTasks :
    (∃ nodes, mutualTasks.getDownstreamDag "a" 20 = some (.ok nodes) ∧
      ShowsNearest (mutualTasks.BelowAt "a") 20 nodes) ∧
    (∃ nodes, mutualTasks.getUpstreamBlockers "a" 20 = some (.ok nodes) ∧
      ShowsNearest (mutualTasks.AboveAt "a") 20 nodes) ∧
    ∀ y ∈ mutualTasks.ids, y ≠ "a" → ∀ d : Int32, 1 ≤ d.toInt → d.toInt + 1 = 20 →
      (y ∈ answerIds (mutualTasks.getDownstreamDag "a" 20) ↔
        "a" ∈ answerIds (mutualTasks.getUpstreamBlockers y d)) :=
  traversals_complete mutualTasks "a" (by decide) 20 (by decide)

end Queries

end Graph

end DataGateway
end Aivcs
