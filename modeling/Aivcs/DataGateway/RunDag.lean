import Mathlib.Data.List.Sort
import Aivcs.Lib.Digest
import Aivcs.Lib.Forest
import Aivcs.DataGateway.RecordStep

/-!
# DataGateway.RunDag — the execution DAG of a run

`get_dag_handler` finds the steps of a run without an incoming edge and follows the edges from there.  An
edge is recorded with whatever parent the client names; a step whose parent is not a step of the run is
neither a root nor reached.

* `getDag_ne_none` — the query always ends;
* `getDag_shows_iff` — when it shows every step of the run, once and at its depth.
-/

namespace Aivcs
namespace DataGateway

open Aivcs.Lib RecursiveQuery

variable {N : Type}

structure DagNode where
  stepId : Uuid
  stepIndex : Int
  agentId : String
  action : String
  resultSummary : String
  depth : Nat
  deriving DecidableEq

def OrchestrationStep.node (step : OrchestrationStep) (depth : Nat) : DagNode where
  stepId := step.stepId
  stepIndex := step.stepIndex
  agentId := step.agentId
  action := step.action
  resultSummary := step.resultSummary
  depth := depth

/-- `(depth + 1)::INTEGER`. -/
def nextDepth (depth : Nat) : Except String Nat :=
  if depth + 1 < 2 ^ 31 then .ok (depth + 1) else .error "integer out of range"

namespace Storage

/-- The anchor: steps of the run with no incoming edge. -/
def rootNodes (s : Storage N) (runId : Uuid) : List DagNode :=
  (s.steps.filter fun step => step.runId = runId &&
    !(s.edges.any fun e => e.runId = step.runId && e.toStepId = step.stepId)).map fun step =>
      step.node 1

/-- The steps that are joined to a row, once for each edge. -/
def joined (s : Storage N) (runId stepId : Uuid) : List OrchestrationStep :=
  s.steps.flatMap fun step => (s.edges.filter fun e => step.stepId = e.toStepId &&
    step.runId = e.runId && e.fromStepId = stepId && step.runId = runId).map fun _ => step

/-- The recursive member. -/
def childNodes (s : Storage N) (runId : Uuid) (d : DagNode) : Except String (List DagNode) :=
  (s.joined runId d.stepId).mapM fun step => (nextDepth d.depth).map step.node

/-- `ORDER BY depth ASC, step_index ASC`. -/
def nodeOrder (a b : DagNode) : Prop :=
  a.depth < b.depth ∨ (a.depth = b.depth ∧ a.stepIndex ≤ b.stepIndex)

instance : DecidableRel nodeOrder := fun _ _ => inferInstanceAs (Decidable (_ ∨ _))

/-- `get_dag_handler`, when the database answers.  Every round finds other steps, so there are no more
rounds than steps. -/
def getDag (s : Storage N) (runId : Uuid) : Option (Except (Nat × String) (List DagNode)) :=
  (unionAll (s.childNodes runId) (s.steps.length + 1) (s.rootNodes runId)).map fun r =>
    match r with
    | .ok rows => .ok (rows.insertionSort nodeOrder)
    | .error e => .error (500, "DAG query failed: " ++ e)

end Storage

/-! ## What the query is for -/

/-- The accepted calls of a run. -/
def recorded (calls : List (Call N)) (runId : Uuid) : List (Call N) :=
  (calls.filter Call.accepted).filter fun c => c.request.runId = runId

def Call.parent (c : Call N) : Option Uuid :=
  c.request.parentStepId

/-- Every step of the run once and no other; a step without a parent is at depth 1, any other one below
its parent. -/
structure ShowsRun (steps : List (Call N)) (nodes : List DagNode) : Prop where
  perm : (nodes.map DagNode.stepId).Perm (steps.map Call.stepId)
  fields : ∀ n ∈ nodes, ∃ c ∈ steps, n = c.step.node n.depth
  root : ∀ n ∈ nodes, ∀ c ∈ steps, c.stepId = n.stepId → c.parent = none → n.depth = 1
  child : ∀ n ∈ nodes, ∀ c ∈ steps, c.stepId = n.stepId → ∀ p, c.parent = some p →
    ∃ m ∈ nodes, m.stepId = p ∧ n.depth = m.depth + 1

/-! ## The joins -/

theorem mem_edges {c : Call N} {e : OrchestrationEdge} :
    e ∈ c.edges ↔ ∃ p, c.parent = some p ∧ e = c.edge p := by
  simp only [Call.edges, Call.parent, List.mem_map, Option.mem_toList, eq_comm]

section Joins

variable {accepted : List (Call N)} {s : Storage N} (hnodup : (accepted.map Call.stepId).Nodup)

include hnodup

/-- The edges into a step are its own. -/
theorem filter_edges_eq {c : Call N} (hc : c ∈ accepted) {p : OrchestrationEdge → Bool}
    (hp : ∀ e, p e = true → e.toStepId = c.stepId) :
    (accepted.flatMap Call.edges).filter p = c.edges.filter p := by
  obtain ⟨pre, post, rfl⟩ := List.append_of_mem hc
  have hothers : ∀ l : List (Call N), (∀ c' ∈ l, c'.stepId ≠ c.stepId) →
      (l.flatMap Call.edges).filter p = [] := by
    intro l hl
    rw [List.filter_eq_nil_iff]
    intro e he hpe
    rcases List.mem_flatMap.1 he with ⟨c', hc', hedge⟩
    rcases mem_edges.1 hedge with ⟨_, _, rfl⟩
    exact hl c' hc' (hp _ hpe)
  rw [List.map_append, List.map_cons, List.nodup_append, List.nodup_cons] at hnodup
  have hpre := hothers pre fun c' hc' heq =>
    hnodup.2.2 _ (List.mem_map_of_mem hc') _ List.mem_cons_self heq
  have hpost := hothers post fun c' hc' heq =>
    hnodup.2.1.1 (heq ▸ List.mem_map_of_mem hc')
  rw [List.flatMap_append, List.flatMap_cons, List.filter_append, List.filter_append, hpre, hpost,
    List.nil_append, List.append_nil]

variable (hsteps : s.steps = accepted.map Call.step)
  (hedges : s.edges = accepted.flatMap Call.edges) (runId : Uuid)

include hsteps hedges

theorem rootNodes_eq : s.rootNodes runId =
    (Forest.roots Call.parent (accepted.filter fun c => c.request.runId = runId)).map fun c =>
      c.step.node 1 := by
  have hincoming : ∀ c ∈ accepted, (s.edges.any fun e =>
      e.runId = c.step.runId && e.toStepId = c.step.stepId) = c.parent.isSome := by
    intro c hc
    rw [Bool.eq_iff_iff, List.any_eq_true, hedges, Option.isSome_iff_exists]
    constructor
    · rintro ⟨e, he, hmatch⟩
      rcases List.mem_flatMap.1 he with ⟨c', hc', hedge⟩
      rcases mem_edges.1 hedge with ⟨p, hparent, rfl⟩
      have hid : c'.stepId = c.stepId := by
        simp only [Bool.and_eq_true, decide_eq_true_eq] at hmatch
        exact hmatch.2
      have hsame : c' = c := List.inj_on_of_nodup_map hnodup hc' hc hid
      exact ⟨p, hsame ▸ hparent⟩
    · rintro ⟨p, hparent⟩
      refine ⟨c.edge p, List.mem_flatMap.2 ⟨c, hc, mem_edges.2 ⟨p, hparent, rfl⟩⟩, ?_⟩
      simp [Call.edge, Call.step]
  unfold Storage.rootNodes Forest.roots
  rw [hsteps, List.filter_map, List.map_map, List.filter_filter]
  congr 1
  refine List.filter_congr fun c hc => ?_
  rw [Function.comp_apply, hincoming c hc, Bool.and_comm]
  cases c.parent <;> rfl

theorem joined_eq (stepId : Uuid) : s.joined runId stepId =
    ((accepted.filter fun c => c.request.runId = runId).filter fun c =>
      c.parent = some stepId).map Call.step := by
  -- The edges that end at a step are those of the call that recorded it.
  have hmatch : ∀ c ∈ accepted, (s.edges.filter fun e => c.step.stepId = e.toStepId &&
      c.step.runId = e.runId && e.fromStepId = stepId && c.step.runId = runId) =
        if c.parent = some stepId ∧ c.request.runId = runId then [c.edge stepId] else [] := by
    intro c hc
    rw [hedges, filter_edges_eq hnodup hc (by
      intro e he
      simp only [Bool.and_eq_true, decide_eq_true_eq] at he
      exact he.1.1.1.symm)]
    unfold Call.edges Call.parent
    cases hparent : c.request.parentStepId with
    | none =>
        simp
    | some p =>
        by_cases hp : p = stepId <;> by_cases hrun : c.request.runId = runId <;>
          simp [hp, hrun, Call.edge, Call.step]
  unfold Storage.joined
  rw [hsteps, List.flatMap_map, List.filter_filter]
  clear hsteps hedges
  induction accepted with
  | nil =>
      rfl
  | cons c accepted ih =>
      rw [List.map_cons, List.nodup_cons] at hnodup
      rw [List.forall_mem_cons] at hmatch
      rw [List.flatMap_cons, ih hnodup.2 hmatch.2, hmatch.1, List.filter_cons]
      by_cases hc : c.parent = some stepId ∧ c.request.runId = runId <;> simp [hc]

end Joins

/-! ## The query -/

theorem mapM_nextDepth_eq_ok_iff {A B : Type} {l : List A} {f : A → Nat → B} {n : Nat} {rows : List B} :
    (l.mapM fun a => (nextDepth n).map (f a)) = .ok rows ↔
      rows = l.map (f · (n + 1)) ∧ (l = [] ∨ n + 1 < 2 ^ 31) := by
  by_cases h : n + 1 < 2 ^ 31
  · have hdepth : nextDepth n = .ok (n + 1) := if_pos h
    have hall : (l.mapM fun a => (nextDepth n).map (f a)) = .ok (l.map (f · (n + 1))) := by
      rw [hdepth]
      exact List.mapM_pure
    rw [hall, Except.ok.injEq, eq_comm]
    exact (and_iff_left (Or.inr h)).symm
  · have hdepth : nextDepth n = .error "integer out of range" := if_neg h
    cases l with
    | nil =>
        simp [pure, Except.pure, eq_comm]
    | cons a l =>
        rw [List.mapM_cons, hdepth]
        refine iff_of_false (fun heq => by cases heq) ?_
        rintro ⟨_, hnil | hlt⟩
        · cases hnil
        · exact h hlt

section Query

variable {accepted : List (Call N)} {s : Storage N} {runId : Uuid}

/-- The steps of the run. -/
def inRun (accepted : List (Call N)) (runId : Uuid) : List (Call N) :=
  accepted.filter fun c => c.request.runId = runId

/-- What the recursive member finds, were there no bound on depths. -/
def below (U : List (Call N)) (d : DagNode) : List DagNode :=
  (U.filter fun c => c.parent = some d.stepId).map fun c => c.step.node (d.depth + 1)

theorem rowsAt_below (U : List (Call N)) (k : Nat) :
    rowsAt (below U) ((Forest.roots Call.parent U).map fun c => c.step.node 1) k =
      (Forest.rounds Call.stepId Call.parent U k).map fun c => c.step.node (k + 1) :=
  rowsAt_map (fun k c => c.step.node (k + 1)) (Forest.children Call.stepId Call.parent U)
    (fun _ _ => rfl) _ k

variable (hnodup : (accepted.map Call.stepId).Nodup)
  (hsteps : s.steps = accepted.map Call.step) (hedges : s.edges = accepted.flatMap Call.edges)

theorem nodup_inRun (hnodup : (accepted.map Call.stepId).Nodup) (runId : Uuid) :
    ((inRun accepted runId).map Call.stepId).Nodup :=
  hnodup.sublist (List.filter_sublist.map _)

include hnodup hsteps hedges

theorem childNodes_eq_ok_iff {d : DagNode} {rows : List DagNode} :
    s.childNodes runId d = .ok rows ↔ rows = below (inRun accepted runId) d ∧
      (below (inRun accepted runId) d = [] ∨ d.depth + 1 < 2 ^ 31) := by
  have hjoin : s.childNodes runId d =
      ((inRun accepted runId).filter fun c => c.parent = some d.stepId).mapM fun c =>
        (nextDepth d.depth).map c.step.node := by
    unfold Storage.childNodes
    rw [joined_eq hnodup hsteps hedges runId, List.mapM_map]
    rfl
  rw [hjoin, mapM_nextDepth_eq_ok_iff, below, List.map_eq_nil_iff]

/-- Round `k` of the query, were there no bound on depths. -/
theorem rowsAt_rootNodes (k : Nat) : rowsAt (below (inRun accepted runId)) (s.rootNodes runId) k =
    (Forest.rounds Call.stepId Call.parent (inRun accepted runId) k).map fun c =>
      c.step.node (k + 1) := by
  rw [rootNodes_eq hnodup hsteps hedges]
  exact rowsAt_below _ _

theorem rowsAt_length_eq_nil :
    rowsAt (below (inRun accepted runId)) (s.rootNodes runId) (inRun accepted runId).length = [] := by
  rw [rowsAt_rootNodes hnodup hsteps hedges, Forest.rounds_length (nodup_inRun hnodup runId), List.map_nil]

omit hnodup hedges in
theorem length_inRun_lt : (inRun accepted runId).length < s.steps.length + 1 := by
  rw [hsteps, List.length_map]
  exact Nat.lt_succ_of_le (List.length_filter_le _ _)

/-- The query ends, whatever is in the tables. -/
theorem getDag_ne_none : s.getDag runId ≠ none := by
  have hmember : ∀ d rows, s.childNodes runId d = .ok rows → rows = below (inRun accepted runId) d :=
    fun d rows h => ((childNodes_eq_ok_iff hnodup hsteps hedges).1 h).1
  have hends := unionAll_ne_none hmember (rowsAt_length_eq_nil hnodup hsteps hedges) (length_inRun_lt hsteps)
  simpa [Storage.getDag] using hends

/-- No row fails if the steps below have depths that are in range. -/
theorem childNodes_of_grounded (hgrounded : ∀ c ∈ inRun accepted runId, ∃ k,
      Forest.AtDepth Call.stepId Call.parent (inRun accepted runId) c k ∧ k + 1 < 2 ^ 31)
    (k : Nat) {row : DagNode} (hrow : row ∈ rowsAt (below (inRun accepted runId)) (s.rootNodes runId) k) :
    s.childNodes runId row = .ok (below (inRun accepted runId) row) := by
  rw [rowsAt_rootNodes hnodup hsteps hedges] at hrow
  rcases List.mem_map.1 hrow with ⟨c, hc, rfl⟩
  refine (childNodes_eq_ok_iff hnodup hsteps hedges).2 ⟨rfl, ?_⟩
  refine or_iff_not_imp_left.2 fun hne => ?_
  -- A step below this one has a depth, which is one more.
  rcases List.exists_mem_of_ne_nil _ hne with ⟨_, hbelow⟩
  rcases List.mem_map.1 hbelow with ⟨c', hc', _⟩
  rcases List.mem_filter.1 hc' with ⟨hmem, hparent⟩
  rcases hgrounded c' hmem with ⟨j, hj, hlt⟩
  have hchild := Forest.AtDepth.child hmem (of_decide_eq_true hparent) (Forest.mem_rounds_iff.1 hc)
  have hdepth := hj.unique (nodup_inRun hnodup runId) hchild
  subst hdepth
  exact hlt

/-- When every step has a depth that is in range, the rows are the steps at their depths. -/
theorem getDag_of_grounded (hgrounded : ∀ c ∈ inRun accepted runId, ∃ k,
      Forest.AtDepth Call.stepId Call.parent (inRun accepted runId) c k ∧ k + 1 < 2 ^ 31) :
    ∃ nodes, s.getDag runId = some (.ok nodes) ∧
      nodes.Perm ((List.range (inRun accepted runId).length).flatMap fun k =>
        (Forest.rounds Call.stepId Call.parent (inRun accepted runId) k).map fun c =>
          c.step.node (k + 1)) := by
  have hrows := unionAll_eq
    (fun k row hrow => childNodes_of_grounded hnodup hsteps hedges hgrounded k hrow)
    (rowsAt_length_eq_nil hnodup hsteps hedges) (length_inRun_lt hsteps)
  refine ⟨((List.range (inRun accepted runId).length).flatMap
    (rowsAt (below (inRun accepted runId)) (s.rootNodes runId))).insertionSort Storage.nodeOrder,
    by rw [Storage.getDag, hrows]; rfl, ?_⟩
  rw [List.flatMap_congr fun k _ => rowsAt_rootNodes hnodup hsteps hedges k]
  exact List.perm_insertionSort _ _

/-- Depths of an answer are in range. -/
theorem depth_lt {nodes : List DagNode} (h : s.getDag runId = some (.ok nodes)) :
    ∀ n ∈ nodes, n.depth < 2 ^ 31 := by
  simp only [Storage.getDag, Option.map_eq_some_iff] at h
  rcases h with ⟨r, hr, hnodes⟩
  cases r with
  | error e =>
      cases hnodes
  | ok rows =>
      obtain rfl : rows.insertionSort Storage.nodeOrder = nodes := Except.ok.inj hnodes
      have hrows : ∀ row ∈ rows, row.depth < 2 ^ 31 := by
        refine unionAll_forall ?_ ?_ hr
        · rw [rootNodes_eq hnodup hsteps hedges]
          intro row hrow
          rcases List.mem_map.1 hrow with ⟨c, _, rfl⟩
          exact Nat.one_lt_two_pow (by decide)
        · intro row rows _ hok row' hrow'
          rcases (childNodes_eq_ok_iff hnodup hsteps hedges).1 hok with ⟨rfl, hnil | hlt⟩
          · rw [hnil] at hrow'
            exact absurd hrow' List.not_mem_nil
          · rcases List.mem_map.1 hrow' with ⟨c, _, rfl⟩
            exact hlt
      intro n hn
      exact hrows n ((List.perm_insertionSort _ _).mem_iff.1 hn)

end Query

/-! ## When the whole run is shown -/

section Shows

variable {steps : List (Call N)} {nodes : List DagNode}

section Rounds

variable (hnodup : (steps.map Call.stepId).Nodup)
  (h : nodes.Perm ((List.range steps.length).flatMap fun k =>
    (Forest.rounds Call.stepId Call.parent steps k).map fun c => c.step.node (k + 1)))

include h

theorem perm_stepIds : (nodes.map DagNode.stepId).Perm (((List.range steps.length).flatMap
    (Forest.rounds Call.stepId Call.parent steps)).map Call.stepId) := by
  have hmap := h.map DagNode.stepId
  simp only [List.map_flatMap, List.map_map] at hmap
  rw [List.map_flatMap]
  exact hmap

include hnodup

theorem mem_nodes_iff {n : DagNode} :
    n ∈ nodes ↔ ∃ c k, Forest.AtDepth Call.stepId Call.parent steps c k ∧ n = c.step.node (k + 1) := by
  rw [h.mem_iff]
  simp only [List.mem_flatMap, List.mem_range, List.mem_map, Forest.mem_rounds_iff]
  constructor
  · rintro ⟨k, _, c, hc, rfl⟩
    exact ⟨c, k, hc, rfl⟩
  · rintro ⟨c, k, hc, rfl⟩
    exact ⟨k, hc.lt_length hnodup, c, hc, rfl⟩

/-- A node is shown at the depth of its step. -/
theorem atDepth_of_mem_nodes {n : DagNode} (hn : n ∈ nodes) {c : Call N} (hc : c ∈ steps)
    (hid : c.stepId = n.stepId) :
    ∃ k, Forest.AtDepth Call.stepId Call.parent steps c k ∧ n = c.step.node (k + 1) := by
  rcases (mem_nodes_iff hnodup h).1 hn with ⟨c', k, hc', rfl⟩
  obtain rfl : c = c' := Forest.eq_of_key_eq hnodup hc hc'.mem hid
  exact ⟨k, hc', rfl⟩

/-- The steps at their depths show the run. -/
theorem showsRun_of_perm
    (hgrounded : ∀ c ∈ steps, ∃ k, Forest.AtDepth Call.stepId Call.parent steps c k) :
    ShowsRun steps nodes := by
  refine ⟨(perm_stepIds h).trans ((Forest.rounds_perm hnodup hgrounded).map _), ?_, ?_, ?_⟩
  · intro n hn
    rcases (mem_nodes_iff hnodup h).1 hn with ⟨c, k, hc, rfl⟩
    exact ⟨c, hc.mem, rfl⟩
  · intro n hn c hc hid hroot
    rcases atDepth_of_mem_nodes hnodup h hn hc hid with ⟨k, hdepth, rfl⟩
    -- A step without a parent has depth zero, and no other.
    have hzero := hdepth.unique hnodup (Forest.AtDepth.root hdepth.mem hroot)
    rw [hzero]
    rfl
  · intro n hn c hc hid p hparent
    rcases atDepth_of_mem_nodes hnodup h hn hc hid with ⟨k, hdepth, rfl⟩
    cases hdepth with
    | root _ hnone =>
        cases hnone.symm.trans hparent
    | @child _ q k _ hq hdepth =>
        refine ⟨q.step.node (k + 1), (mem_nodes_iff hnodup h).2 ⟨q, k, hdepth, rfl⟩, ?_, rfl⟩
        exact Option.some.inj (hq.symm.trans hparent)

end Rounds

/-- Along a line of descent the depths that are shown count up. -/
theorem ShowsRun.length_le (h : ShowsRun steps nodes) {l : List (Call N)} {c : Call N}
    (hl : Forest.IsLine Call.stepId Call.parent steps (l ++ [c])) {n : DagNode} (hn : n ∈ nodes)
    (hid : c.stepId = n.stepId) : l.length < n.depth := by
  have hc : c ∈ steps := hl.mem c (by simp)
  induction l using List.reverseRecOn generalizing c n with
  | nil =>
      rcases hparent : c.parent with _ | p
      · rw [h.root n hn c hc hid hparent]
        exact Nat.one_pos
      · rcases h.child n hn c hc hid p hparent with ⟨m, _, _, hdepth⟩
        rw [hdepth]
        exact Nat.succ_pos _
  | append_singleton l q ih =>
      have hlinks := hl.links
      rw [List.append_assoc, List.singleton_append, List.isChain_split, List.isChain_pair] at hlinks
      rcases h.child n hn c hc hid q.stepId hlinks.2 with ⟨m, hm, hmid, hdepth⟩
      have hline : Forest.IsLine Call.stepId Call.parent steps (l ++ [q]) :=
        ⟨fun t ht => hl.mem t (List.mem_append_left _ ht), hlinks.1⟩
      have := ih hline hm hmid.symm (hline.mem q (by simp))
      rw [List.length_append, List.length_singleton, hdepth]
      omega

theorem ShowsRun.closed (h : ShowsRun steps nodes) :
    Forest.Closed Call.stepId Call.parent steps := by
  intro c hc p hparent
  have hshown : c.stepId ∈ nodes.map DagNode.stepId := h.perm.mem_iff.2 (List.mem_map_of_mem hc)
  rcases List.mem_map.1 hshown with ⟨n, hn, hid⟩
  rcases h.child n hn c hc hid.symm p hparent with ⟨m, hm, rfl, _⟩
  exact List.mem_map.1 (h.perm.mem_iff.1 (List.mem_map_of_mem hm))

end Shows

/-- The answer shows the run exactly when every parent that was named is a step of the run, and no chain of
parents has `2³¹` steps. -/
theorem getDag_shows_iff (G : GatewayState N) (calls : List (Call N)) (runId : Uuid)
    (hfresh : ((calls.filter Call.accepted).map Call.stepId).Nodup) :
    (∃ nodes, (G.after .empty calls).getDag runId = some (.ok nodes) ∧
      ShowsRun (recorded calls runId) nodes) ↔
    Forest.Closed Call.stepId Call.parent (recorded calls runId) ∧
      ∀ l, Forest.IsLine Call.stepId Call.parent (recorded calls runId) l → l.length < 2 ^ 31 := by
  rcases G.tables_of_calls calls .empty with ⟨hsteps, hedges⟩
  have hnodup : ((recorded calls runId).map Call.stepId).Nodup := nodup_inRun hfresh runId
  constructor
  · rintro ⟨nodes, hnodes, hshows⟩
    refine ⟨hshows.closed, fun l hl => ?_⟩
    rcases List.eq_nil_or_concat' l with rfl | ⟨l, c, rfl⟩
    · exact Nat.two_pow_pos 31
    · have hshown : c.stepId ∈ nodes.map DagNode.stepId :=
        hshows.perm.mem_iff.2 (List.mem_map_of_mem (hl.mem c (by simp)))
      rcases List.mem_map.1 hshown with ⟨n, hn, hid⟩
      calc
        (l ++ [c]).length = l.length + 1 := by simp
        _ ≤ n.depth := hshows.length_le hl hn hid.symm
        _ < 2 ^ 31 := depth_lt hfresh hsteps hedges hnodes n hn
  · rintro ⟨hclosed, hbound⟩
    have hgrounded : ∀ c ∈ recorded calls runId, ∃ k,
        Forest.AtDepth Call.stepId Call.parent (recorded calls runId) c k ∧ k + 1 < 2 ^ 31 :=
      fun c hc => Forest.grounded_of_bounded hclosed hbound hc
    rcases getDag_of_grounded hfresh hsteps hedges hgrounded with ⟨nodes, hnodes, hperm⟩
    refine ⟨nodes, hnodes, showsRun_of_perm hnodup hperm fun c hc => ?_⟩
    rcases hgrounded c hc with ⟨k, hk, _⟩
    exact ⟨k, hk⟩

section Dangling

/-- A gateway with the default threshold. -/
def defaultGateway : GatewayState Int where
  casThresholdBytes := 65536
  numText := Json.renderInt
  sha256Hex := tableHexDigest []

def orphanRun : Uuid :=
  "0190a5c4-7d1e-7000-8000-000000000001"

/-- A step whose parent is in no run. -/
def orphanStep : Call Int where
  request :=
    { runId := orphanRun
      stepIndex := 0
      agentId := "agent"
      action := "compile"
      result := "ok"
      parentStepId := some "0190a5c4-7d1e-7000-8000-000000000002"
      executionTimeMs := 1
      statePayload := .null }
  stepId := "0190a5c4-7d1e-7000-8000-000000000003"
  checkpointId := "0190a5c4-7d1e-7000-8000-000000000004"
  failure := fun _ => none

theorem getDag_orphanStep : (defaultGateway.after .empty [orphanStep]).getDag orphanRun =
    some (.ok []) := by
  rfl

theorem not_shows_orphanStep :
    ¬ ∀ (G : GatewayState Int) (calls : List (Call Int)) (runId : Uuid),
      ((calls.filter Call.accepted).map Call.stepId).Nodup →
      ∃ nodes, (G.after .empty calls).getDag runId = some (.ok nodes) ∧
        ShowsRun (recorded calls runId) nodes := by
  intro h
  rcases h defaultGateway [orphanStep] orphanRun (List.nodup_singleton _) with ⟨nodes, hnodes, hshows⟩
  rw [getDag_orphanStep] at hnodes
  obtain rfl : [] = nodes := Except.ok.inj (Option.some.inj hnodes)
  exact absurd hshows.perm.length_eq (by decide)

/-- The parent that was named, as a step of the run. -/
def rootStep : Call Int where
  request := { orphanStep.request with parentStepId := none }
  stepId := "0190a5c4-7d1e-7000-8000-000000000002"
  checkpointId := "0190a5c4-7d1e-7000-8000-000000000005"
  failure := fun _ => none

theorem atDepth_rootStep : Forest.AtDepth Call.stepId Call.parent [rootStep, orphanStep] rootStep 0 :=
  .root (by simp) rfl

theorem atDepth_orphanStep : Forest.AtDepth Call.stepId Call.parent [rootStep, orphanStep] orphanStep 1 :=
  .child (by simp) rfl atDepth_rootStep

/-- The run is not shown without the parent, and it is with it. -/
theorem getDag_shows_iff_orphanStep :
    (¬ ∃ nodes, (defaultGateway.after .empty [orphanStep]).getDag orphanRun = some (.ok nodes) ∧
      ShowsRun (recorded [orphanStep] orphanRun) nodes) ∧
    ∃ nodes, (defaultGateway.after .empty [rootStep, orphanStep]).getDag orphanRun = some (.ok nodes) ∧
      ShowsRun (recorded [rootStep, orphanStep] orphanRun) nodes ∧ nodes.map DagNode.depth = [1, 2] := by
  constructor
  · intro h
    obtain ⟨hclosed, -⟩ :=
      (getDag_shows_iff defaultGateway [orphanStep] orphanRun (List.nodup_singleton _)).1 h
    have hrecorded : recorded [orphanStep] orphanRun = [orphanStep] := rfl
    rw [hrecorded] at hclosed
    obtain ⟨p, hp, heq⟩ := hclosed orphanStep (List.mem_singleton_self _) _ rfl
    obtain rfl := List.mem_singleton.1 hp
    exact absurd heq (by decide)
  · have hrecorded : recorded [rootStep, orphanStep] orphanRun = [rootStep, orphanStep] := rfl
    have hclosed : Forest.Closed Call.stepId Call.parent [rootStep, orphanStep] := by
      intro c hc p hp
      rcases List.mem_pair.1 hc with rfl | rfl
      · cases hp
      · exact ⟨rootStep, by simp, Option.some.inj hp⟩
    have hbound : ∀ l, Forest.IsLine Call.stepId Call.parent [rootStep, orphanStep] l → l.length < 2 ^ 31 := by
      intro l hl
      rcases List.eq_nil_or_concat' l with rfl | ⟨l, c, rfl⟩
      · exact Nat.two_pow_pos 31
      · -- a line to a step has no more steps before it than its depth
        have hlength : l.length ≤ 1 := by
          rcases List.mem_pair.1 (hl.mem c (by simp)) with rfl | rfl
          · exact (atDepth_rootStep.length_le (by decide) hl).trans (Nat.zero_le 1)
          · exact atDepth_orphanStep.length_le (by decide) hl
        rw [List.length_append, List.length_singleton]
        omega
    obtain ⟨nodes, hnodes, hshows⟩ :=
      (getDag_shows_iff defaultGateway [rootStep, orphanStep] orphanRun (by decide)).2
        ⟨hrecorded ▸ hclosed, hrecorded ▸ hbound⟩
    refine ⟨nodes, hnodes, hshows, ?_⟩
    have hvalue : ((defaultGateway.after .empty [rootStep, orphanStep]).getDag orphanRun).map
        (Except.map (List.map DagNode.depth)) = some (.ok [1, 2]) := by rfl
    rw [hnodes] at hvalue
    exact Except.ok.inj (Option.some.inj hvalue)

end Dangling

end DataGateway
end Aivcs
