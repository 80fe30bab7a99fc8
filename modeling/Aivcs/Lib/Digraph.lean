import Mathlib.Data.Finset.Card
import Mathlib.Data.List.Chain
import Mathlib.Logic.Relation

/-!
# Digraph — acyclic relations and the search for a cycle

* `Acyclic`, `withEdge`: what adding one edge to an acyclic relation can do;
* `dfsCycle`: the depth-first search that keeps one visited set and one path, stops at the first
  vertex that is already on the path, and otherwise has proved that no cycle passes through the
  start (`findCycle_spec`);
* `bfs`: the breadth-first walk that collects what a vertex reaches (`bfs_spec`).

Both are fuelled: `none` is the search that has not finished.
-/

namespace Aivcs
namespace Lib
namespace Digraph

open Relation

variable {V : Type}

/-! ## Acyclic relations -/

/-- No vertex reaches itself along one edge or more. -/
def Acyclic (r : V → V → Prop) : Prop :=
  ∀ v, ¬ TransGen r v v

/-- The relation with one more edge. -/
def withEdge (r : V → V → Prop) (a b : V) (x y : V) : Prop :=
  r x y ∨ (x = a ∧ y = b)

section WithEdge

variable {r : V → V → Prop} {a b x y : V}

theorem withEdge_mono (h : r x y) : withEdge r a b x y :=
  Or.inl h

theorem withEdge_edge : withEdge r a b a b :=
  Or.inr ⟨rfl, rfl⟩

/-- A walk with the new edge either does without it, or goes to its source and on from its
target. -/
theorem transGen_withEdge (h : TransGen (withEdge r a b) x y) :
    TransGen r x y ∨ (ReflTransGen r x a ∧ ReflTransGen r b y) := by
  induction h with
  | single h =>
      rcases h with h | ⟨rfl, rfl⟩
      · exact Or.inl (TransGen.single h)
      · exact Or.inr ⟨ReflTransGen.refl, ReflTransGen.refl⟩
  | tail _ hstep ih =>
      rcases hstep with h | ⟨rfl, rfl⟩
      · rcases ih with hold | ⟨hxa, hby⟩
        · exact Or.inl (hold.tail h)
        · exact Or.inr ⟨hxa, hby.tail h⟩
      · -- the last edge is the new one, so what precedes it leads to `a`
        refine Or.inr ⟨?_, ReflTransGen.refl⟩
        rcases ih with hold | ⟨hxa, _⟩
        · exact hold.to_reflTransGen
        · exact hxa

/-- Adding `a ⟶ b` closes a cycle exactly when `b` already reaches `a`. -/
theorem cycle_withEdge_iff (hr : Acyclic r) :
    TransGen (withEdge r a b) b b ↔ ReflTransGen r b a := by
  constructor
  · intro h
    rcases transGen_withEdge h with hold | ⟨hba, _⟩
    · exact absurd hold (hr b)
    · exact hba
  · intro h
    have hnew : ReflTransGen (withEdge r a b) b a :=
      ReflTransGen.mono (fun _ _ => withEdge_mono) b a h
    exact TransGen.tail' hnew withEdge_edge

theorem Acyclic.withEdge (hr : Acyclic r) (h : ¬ ReflTransGen r b a) :
    Acyclic (withEdge r a b) := by
  intro v hv
  rcases transGen_withEdge hv with hold | ⟨hva, hbv⟩
  · exact hr v hold
  · exact h (hbv.trans hva)

/-- A walk that never enters `b` does not use the edge into `b`. -/
theorem isChain_of_notMem {l : List V} (h : List.IsChain (Digraph.withEdge r a b) (x :: l))
    (hb : b ∉ l) : List.IsChain r (x :: l) := by
  induction l generalizing x with
  | nil =>
      exact List.isChain_singleton x
  | cons y l ih =>
      rw [List.isChain_cons_cons] at h ⊢
      rw [List.mem_cons, not_or] at hb
      refine ⟨?_, ih h.2 hb.2⟩
      rcases h.1 with h | ⟨_, hy⟩
      · exact h
      · exact absurd hy.symm hb.1

end WithEdge

/-- A walk of one edge or more, as a list, is a step of the transitive closure. -/
theorem transGen_of_isChain {r : V → V → Prop} {x y : V} {l : List V}
    (h : List.IsChain r (x :: (l ++ [y]))) : TransGen r x y := by
  induction l generalizing x with
  | nil =>
      exact TransGen.single (List.isChain_pair.mp h)
  | cons z l ih =>
      rw [List.cons_append, List.isChain_cons_cons] at h
      exact TransGen.head h.1 (ih h.2)

/-! ## Looking for a cycle -/

/-- The two collections the search threads through: what it has seen, and the walk from the start
to where it stands. -/
structure Search (V : Type) where
  visited : Finset V
  path : List V

/-- Visit the vertices of a list in turn, up to the first visit that finds a cycle. -/
def anyFrom (visit : V → Search V → Option (Bool × Search V)) :
    List V → Search V → Option (Bool × Search V)
  | [], s => some (false, s)
  | v :: rest, s =>
      match visit v s with
      | none => none
      | some (true, s) => some (true, s)
      | some (false, s) => anyFrom visit rest s

def dfsCycle [DecidableEq V] (succ : V → List V) : Nat → V → Search V → Option (Bool × Search V)
  | 0, _, _ => none
  | fuel + 1, v, s =>
      if v ∈ s.path then some (true, { s with path := s.path ++ [v] })
      else if v ∈ s.visited then some (false, s)
      else
        match anyFrom (dfsCycle succ fuel) (succ v) ⟨insert v s.visited, s.path ++ [v]⟩ with
        | none => none
        | some (true, s) => some (true, s)
        | some (false, s) => some (false, { s with path := s.path.dropLast })

/-- The edges the search follows. -/
def Succ (succ : V → List V) (v w : V) : Prop :=
  w ∈ succ v

section Dfs

variable {succ : V → List V} {U : Finset V}

/-- What holds of the search between two visits.  The vertices that are seen and not on the path
are done: their successors are done too, and none of them lies on a cycle. -/
structure Search.Inv (succ : V → List V) (U : Finset V) (s : Search V) : Prop where
  nodup : s.path.Nodup
  path_visited : ∀ v ∈ s.path, v ∈ s.visited
  visited_subset : s.visited ⊆ U
  chain : List.IsChain (Succ succ) s.path
  done_closed : ∀ v ∈ s.visited, v ∉ s.path → ∀ w ∈ succ v, w ∈ s.visited ∧ w ∉ s.path
  done_acyclic : ∀ v ∈ s.visited, v ∉ s.path → ¬ TransGen (Succ succ) v v

/-- The vertices that are done are closed under the edges, so no walk leaves them. -/
theorem Search.Inv.done_of_transGen {s : Search V} (hs : s.Inv succ U) {v w : V}
    (hv : v ∈ s.visited) (hoff : v ∉ s.path) (h : ReflTransGen (Succ succ) v w) :
    w ∈ s.visited ∧ w ∉ s.path := by
  induction h with
  | refl =>
      exact ⟨hv, hoff⟩
  | tail _ hstep ih =>
      exact hs.done_closed _ ih.1 ih.2 _ hstep

/-- Leaving a vertex all of whose successors are done. -/
theorem Search.Inv.leave {s : Search V} {p : List V} {v : V} (hs : s.Inv succ U)
    (hpath : s.path = p ++ [v]) (hdone : ∀ w ∈ succ v, w ∈ s.visited ∧ w ∉ s.path) :
    Search.Inv succ U ⟨s.visited, p⟩ := by
  have hnodup : (p ++ [v]).Nodup := hpath ▸ hs.nodup
  have hoff {w : V} (hw : w ∉ p) (hne : w ≠ v) : w ∉ s.path := by
    rw [hpath, List.mem_append, List.mem_singleton, not_or]
    exact ⟨hw, hne⟩
  have hoff' {w : V} (hw : w ∉ s.path) : w ∉ p := by
    intro h
    exact hw (hpath ▸ List.mem_append_left _ h)
  refine ⟨(List.nodup_append.mp hnodup).1, ?_, hs.visited_subset, ?_, ?_, ?_⟩
  · intro w hw
    exact hs.path_visited w (hpath ▸ List.mem_append_left _ hw)
  · exact (hpath ▸ hs.chain).left_of_append
  · intro w hw hwp u hu
    by_cases hwv : w = v
    · subst hwv
      exact ⟨(hdone u hu).1, hoff' (hdone u hu).2⟩
    · obtain ⟨hu₁, hu₂⟩ := hs.done_closed w hw (hoff hwp hwv) u hu
      exact ⟨hu₁, hoff' hu₂⟩
  · intro w hw hwp
    by_cases hwv : w = v
    · -- a cycle through `v` would go on from a successor, and would have to end on the path
      subst hwv
      intro hcycle
      obtain ⟨u, hu, hback⟩ := TransGen.head'_iff.mp hcycle
      have hw' := hs.done_of_transGen (hdone u hu).1 (hdone u hu).2 hback
      exact hw'.2 (hpath ▸ List.mem_append_right _ (List.mem_singleton_self w))
    · exact hs.done_acyclic w hw (hoff hwp hwv)

/-- The walk of a search that has found a cycle: its last vertex is one of the others. -/
structure Closes (succ : V → List V) (path : List V) : Prop where
  chain : List.IsChain (Succ succ) path
  nodup : path.dropLast.Nodup
  last : ∃ x ∈ path.dropLast, path.getLast? = some x

/-- What visiting the vertices `vs` in the state `s` leaves behind when no cycle is found. -/
structure Visited (succ : V → List V) (U : Finset V) (vs : List V) (s s' : Search V) : Prop where
  inv : s'.Inv succ U
  path_eq : s'.path = s.path
  mono : s.visited ⊆ s'.visited
  done : ∀ v ∈ vs, v ∈ s'.visited ∧ v ∉ s'.path

/-- The outcome of visiting `vs` from the state `s`; a cycle is found on a walk that goes on from
`walk`. -/
inductive Outcome (succ : V → List V) (U : Finset V) (vs walk : List V) (s : Search V) :
    Bool × Search V → Prop
  | found {s' : Search V} (hc : Closes succ s'.path) (hp : walk <+: s'.path) :
      Outcome succ U vs walk s (true, s')
  | clear {s' : Search V} (hv : Visited succ U vs s s') : Outcome succ U vs walk s (false, s')

variable [DecidableEq V]

/-- The search may visit `v` in the state `s` with this much fuel. -/
structure Ready (succ : V → List V) (U : Finset V) (fuel : Nat) (v : V) (s : Search V) : Prop where
  inv : s.Inv succ U
  mem : v ∈ U
  chain : List.IsChain (Succ succ) (s.path ++ [v])
  fuel_lt : (U \ s.visited).card < fuel

theorem Ready.of_visited {fuel : Nat} {v : V} {vs : List V} {s s' : Search V}
    (h : Ready succ U fuel v s) (hs : Visited succ U vs s s') : Ready succ U fuel v s' where
  inv := hs.inv
  mem := h.mem
  chain := by rw [hs.path_eq]; exact h.chain
  fuel_lt := lt_of_le_of_lt (Finset.card_le_card (Finset.sdiff_subset_sdiff subset_rfl hs.mono))
    h.fuel_lt

/-- The loop over the successors keeps what a single visit keeps. -/
theorem anyFrom_spec {fuel : Nat} {visit : V → Search V → Option (Bool × Search V)}
    (hvisit : ∀ v s, Ready succ U fuel v s →
      ∃ r, visit v s = some r ∧ Outcome succ U [v] (s.path ++ [v]) s r)
    (vs : List V) (s : Search V) (hs : s.Inv succ U) (hvs : ∀ v ∈ vs, Ready succ U fuel v s) :
    ∃ r, anyFrom visit vs s = some r ∧ Outcome succ U vs s.path s r := by
  induction vs generalizing s with
  | nil =>
      refine ⟨(false, s), rfl, Outcome.clear ⟨hs, rfl, subset_rfl, ?_⟩⟩
      simp
  | cons v vs ih =>
      obtain ⟨r, hr, hout⟩ := hvisit v s (hvs v List.mem_cons_self)
      cases hout with
      | @found s' hc hp =>
          refine ⟨(true, s'), by simp [anyFrom, hr], Outcome.found hc ?_⟩
          exact (List.prefix_append _ _).trans hp
      | @clear s' hv =>
          obtain ⟨r', hr', hout'⟩ := ih s' hv.inv fun w hw =>
            (hvs w (List.mem_cons_of_mem v hw)).of_visited hv
          refine ⟨r', by simp [anyFrom, hr, hr'], ?_⟩
          cases hout' with
          | found hc hp =>
              exact Outcome.found hc (hv.path_eq ▸ hp)
          | clear hv' =>
              refine Outcome.clear ⟨hv'.inv, hv'.path_eq.trans hv.path_eq,
                hv.mono.trans hv'.mono, ?_⟩
              intro w hw
              rcases List.mem_cons.mp hw with rfl | hw
              · obtain ⟨hseen, hoff⟩ := hv.done w (List.mem_singleton_self w)
                exact ⟨hv'.mono hseen, hv'.path_eq ▸ hoff⟩
              · exact hv'.done w hw

/-- Entering a vertex that is seen for the first time. -/
theorem Search.Inv.enter {s : Search V} {v : V} (hs : s.Inv succ U) (hv : v ∈ U)
    (hnew : v ∉ s.visited) (hchain : List.IsChain (Succ succ) (s.path ++ [v])) :
    Search.Inv succ U ⟨insert v s.visited, s.path ++ [v]⟩ where
  nodup := by
    have hoff : v ∉ s.path := fun h => hnew (hs.path_visited v h)
    rw [List.nodup_append]
    refine ⟨hs.nodup, List.nodup_singleton v, ?_⟩
    intro w hw u hu hwu
    rw [hwu, List.mem_singleton.mp hu] at hw
    exact hoff hw
  path_visited := by
    intro w hw
    rcases List.mem_append.mp hw with hw | hw
    · exact Finset.mem_insert_of_mem (hs.path_visited w hw)
    · rw [List.mem_singleton.mp hw]
      exact Finset.mem_insert_self v s.visited
  visited_subset := Finset.insert_subset hv hs.visited_subset
  chain := hchain
  done_closed := by
    intro w hw hoff u hu
    rw [List.mem_append, List.mem_singleton, not_or] at hoff
    have hold : w ∈ s.visited := Finset.mem_of_mem_insert_of_ne hw hoff.2
    obtain ⟨hu₁, hu₂⟩ := hs.done_closed w hold hoff.1 u hu
    refine ⟨Finset.mem_insert_of_mem hu₁, ?_⟩
    rw [List.mem_append, List.mem_singleton, not_or]
    exact ⟨hu₂, fun h => hnew (h ▸ hu₁)⟩
  done_acyclic := by
    intro w hw hoff
    rw [List.mem_append, List.mem_singleton, not_or] at hoff
    exact hs.done_acyclic w (Finset.mem_of_mem_insert_of_ne hw hoff.2) hoff.1

/-- One visit, by induction on the fuel: it finishes, and a visit that finds nothing leaves its
vertex done. -/
theorem dfsCycle_spec (hU : ∀ v ∈ U, ∀ w ∈ succ v, w ∈ U) (fuel : Nat) (v : V) (s : Search V)
    (h : Ready succ U fuel v s) :
    ∃ r, dfsCycle succ fuel v s = some r ∧ Outcome succ U [v] (s.path ++ [v]) s r := by
  induction fuel generalizing v s with
  | zero =>
      exact absurd h.fuel_lt (Nat.not_lt_zero _)
  | succ fuel ih =>
      by_cases hpath : v ∈ s.path
      · refine ⟨(true, { s with path := s.path ++ [v] }), by simp [dfsCycle, hpath], ?_⟩
        refine Outcome.found ⟨h.chain, ?_, ⟨v, ?_, ?_⟩⟩ (List.prefix_refl _)
        · simpa using h.inv.nodup
        · simpa using hpath
        · simp
      by_cases hseen : v ∈ s.visited
      · refine ⟨(false, s), by simp [dfsCycle, hpath, hseen], Outcome.clear ?_⟩
        refine ⟨h.inv, rfl, subset_rfl, ?_⟩
        simpa using ⟨hseen, hpath⟩
      · have hin := h.inv.enter h.mem hseen h.chain
        have hcard : (U \ insert v s.visited).card < fuel := by
          have hlt : (U \ insert v s.visited).card < (U \ s.visited).card := by
            apply Finset.card_lt_card
            rw [Finset.ssubset_iff_of_subset
              (Finset.sdiff_subset_sdiff subset_rfl (Finset.subset_insert v s.visited))]
            exact ⟨v, by simp [h.mem, hseen], by simp⟩
          have := h.fuel_lt
          omega
        obtain ⟨r, hr, hout⟩ := anyFrom_spec ih (succ v) ⟨insert v s.visited, s.path ++ [v]⟩ hin
          fun w hw => ⟨hin, hU v h.mem w hw, List.isChain_append.mpr
            ⟨h.chain, List.isChain_singleton w, by simpa [Succ] using hw⟩, hcard⟩
        cases hout with
        | @found s' hc hp =>
            exact ⟨(true, s'), by simp [dfsCycle, hpath, hseen, hr], Outcome.found hc hp⟩
        | @clear s' hv =>
            have hdrop : s'.path.dropLast = s.path := by simp [hv.path_eq]
            refine ⟨(false, { s' with path := s'.path.dropLast }),
              by simp [dfsCycle, hpath, hseen, hr], Outcome.clear ?_⟩
            refine ⟨?_, hdrop, (Finset.subset_insert v s.visited).trans hv.mono, ?_⟩
            · rw [hdrop]
              exact hv.inv.leave hv.path_eq hv.done
            · simp only [List.mem_singleton, forall_eq, hdrop]
              exact ⟨hv.mono (Finset.mem_insert_self v s.visited), hpath⟩

/-- The search from a start, with nothing seen yet: the walk it stopped on, if it found one. -/
def findCycle (succ : V → List V) (fuel : Nat) (start : V) : Option (Option (List V)) :=
  match dfsCycle succ fuel start ⟨∅, []⟩ with
  | none => none
  | some (true, s) => some (some s.path)
  | some (false, _) => some none

theorem findCycle_spec (hU : ∀ v ∈ U, ∀ w ∈ succ v, w ∈ U) {fuel : Nat} (hfuel : U.card < fuel)
    {start : V} (hstart : start ∈ U) :
    (findCycle succ fuel start = some none ∧ ¬ TransGen (Succ succ) start start) ∨
      ∃ path, findCycle succ fuel start = some (some path) ∧ Closes succ path ∧
        [start] <+: path := by
  have hinit : Search.Inv succ U ⟨∅, []⟩ := by
    constructor <;> simp
  have hready : Ready succ U fuel start ⟨∅, []⟩ :=
    ⟨hinit, hstart, List.isChain_singleton start, by simpa using hfuel⟩
  obtain ⟨r, hr, hout⟩ := dfsCycle_spec hU fuel start ⟨∅, []⟩ hready
  cases hout with
  | @found s' hc hp =>
      exact Or.inr ⟨s'.path, by simp [findCycle, hr], hc, hp⟩
  | clear hv =>
      refine Or.inl ⟨by simp [findCycle, hr], ?_⟩
      obtain ⟨hseen, hoff⟩ := hv.done start (List.mem_singleton_self start)
      exact hv.inv.done_acyclic start hseen hoff

omit [DecidableEq V] in
/-- When the only cycles are those through the edge into `b`, a search from `b` comes back to `b`:
its walk is closed. -/
theorem Closes.closed_walk {r : V → V → Prop} {a b : V} {path : List V} (h : Closes succ path)
    (hr : Acyclic r) (hsucc : ∀ x y, Succ succ x y → withEdge r a b x y) (hb : [b] <+: path) :
    ∃ mid, path = b :: (mid ++ [b]) := by
  obtain ⟨x, hx, hlast⟩ := h.last
  obtain ⟨l, hl⟩ := List.getLast?_eq_some_iff.mp hlast
  have hnodup := h.nodup
  rw [hl, List.dropLast_concat] at hx hnodup
  obtain ⟨pre, mid, rfl⟩ := List.append_of_mem hx
  have hchain : List.IsChain (withEdge r a b) (x :: (mid ++ [x])) := by
    have hall : List.IsChain (withEdge r a b) path := h.chain.imp hsucc
    rw [hl, List.append_assoc] at hall
    exact hall.right_of_append
  -- the part of the walk from `x` to `x` is a cycle, so it has to enter `b`
  have hmem : b ∈ mid ++ [x] := by
    by_contra hnot
    exact hr x (transGen_of_isChain (isChain_of_notMem hchain hnot))
  cases pre with
  | nil =>
      refine ⟨mid, ?_⟩
      have hbx : b = x := by simpa [hl] using hb
      rw [hl, hbx, List.nil_append, List.cons_append]
  | cons c pre =>
      have hbc : b = c := by simpa [hl] using hb
      subst hbc
      rw [List.cons_append, List.nodup_cons] at hnodup
      refine absurd ?_ hnodup.1
      rw [List.mem_append, List.mem_cons]
      rcases List.mem_append.mp hmem with h | h
      · exact Or.inr (Or.inr h)
      · exact Or.inr (Or.inl (List.mem_singleton.mp h))

end Dfs

/-! ## Collecting what a vertex reaches -/

section Bfs

variable [DecidableEq V]

/-- Mark the vertices of a list; the ones that were not marked before, in order. -/
def discover (visited : Finset V) : List V → Finset V × List V
  | [] => (visited, [])
  | w :: ws =>
      if w ∈ visited then discover visited ws
      else
        let (visited', fresh) := discover (insert w visited) ws
        (visited', w :: fresh)

def bfs (succ : V → List V) : Nat → Finset V → List V → Option (Finset V)
  | 0, _, _ => none
  | _ + 1, visited, [] => some visited
  | fuel + 1, visited, v :: queue =>
      let (visited, fresh) := discover visited (succ v)
      bfs succ fuel visited (queue ++ fresh)

variable {succ : V → List V} {U : Finset V} {start : V}

theorem mem_discover_fst (visited : Finset V) (ws : List V) (w : V) :
    w ∈ (discover visited ws).1 ↔ w ∈ visited ∨ w ∈ ws := by
  induction ws generalizing visited with
  | nil =>
      simp [discover]
  | cons u ws ih =>
      by_cases hu : u ∈ visited
      · simp only [discover, hu, if_true, ih, List.mem_cons]
        constructor
        · tauto
        · rintro (h | rfl | h) <;> tauto
      · simp only [discover, hu, if_false, ih, Finset.mem_insert, List.mem_cons]
        tauto

theorem mem_discover_snd (visited : Finset V) (ws : List V) (w : V) :
    w ∈ (discover visited ws).2 ↔ w ∉ visited ∧ w ∈ ws := by
  induction ws generalizing visited with
  | nil =>
      simp [discover]
  | cons u ws ih =>
      by_cases hu : u ∈ visited
      · simp only [discover, hu, if_true, ih, List.mem_cons]
        constructor
        · tauto
        · rintro ⟨h, rfl | hw⟩ <;> tauto
      · simp only [discover, hu, if_false, List.mem_cons, ih, Finset.mem_insert]
        constructor
        · rintro (rfl | h) <;> tauto
        · rintro ⟨h, rfl | hw⟩ <;> tauto

/-- Every vertex that is marked leaves the unmarked ones. -/
theorem card_discover (visited : Finset V) (ws : List V) (hws : ∀ w ∈ ws, w ∈ U) :
    (discover visited ws).2.length + (U \ (discover visited ws).1).card =
      (U \ visited).card := by
  induction ws generalizing visited with
  | nil =>
      simp [discover]
  | cons u ws ih =>
      have hrest : ∀ w ∈ ws, w ∈ U := fun w hw => hws w (List.mem_cons_of_mem u hw)
      by_cases hu : u ∈ visited
      · simpa [discover, hu] using ih visited hrest
      · have hmem : u ∈ U \ visited := Finset.mem_sdiff.mpr ⟨hws u List.mem_cons_self, hu⟩
        have herase : U \ insert u visited = (U \ visited).erase u := by
          ext x
          simp only [Finset.mem_sdiff, Finset.mem_insert, Finset.mem_erase]
          tauto
        have hcard := ih (insert u visited) hrest
        rw [herase, Finset.card_erase_of_mem hmem] at hcard
        have hpos : 0 < (U \ visited).card := Finset.card_pos.mpr ⟨u, hmem⟩
        simp only [discover, hu, if_false, List.length_cons]
        omega

/-- What holds between two rounds of the walk: the marked vertices are reached from the start, and
a vertex whose successors are not all marked is still queued. -/
structure BfsInv (succ : V → List V) (start : V) (visited : Finset V) (queue : List V) : Prop where
  sound : ∀ w ∈ visited, TransGen (Succ succ) start w
  queue_sound : ∀ w ∈ queue, ReflTransGen (Succ succ) start w
  closed : ∀ v, v = start ∨ v ∈ visited → v ∉ queue → ∀ w ∈ succ v, w ∈ visited

theorem BfsInv.step {visited : Finset V} {v : V} {queue : List V}
    (h : BfsInv succ start visited (v :: queue)) :
    BfsInv succ start (discover visited (succ v)).1 (queue ++ (discover visited (succ v)).2) := by
  have hv : ReflTransGen (Succ succ) start v := h.queue_sound v List.mem_cons_self
  have hsucc : ∀ w ∈ succ v, TransGen (Succ succ) start w := fun w hw => TransGen.tail' hv hw
  refine ⟨?_, ?_, ?_⟩
  · intro w hw
    rcases (mem_discover_fst _ _ w).mp hw with hw | hw
    · exact h.sound w hw
    · exact hsucc w hw
  · intro w hw
    rcases List.mem_append.mp hw with hw | hw
    · exact h.queue_sound w (List.mem_cons_of_mem v hw)
    · exact (hsucc w ((mem_discover_snd _ _ w).mp hw).2).to_reflTransGen
  · intro u hu hoff w hw
    rw [List.mem_append, not_or] at hoff
    rw [mem_discover_fst]
    by_cases huv : u = v
    · exact Or.inr (huv ▸ hw)
    · refine Or.inl (h.closed u ?_ ?_ w hw)
      · -- a vertex marked in this round is queued in this round
        rcases hu with hu | hu
        · exact Or.inl hu
        · rcases (mem_discover_fst _ _ u).mp hu with hu | hu
          · exact Or.inr hu
          · by_contra hnot
            rw [not_or] at hnot
            exact hoff.2 ((mem_discover_snd _ _ u).mpr ⟨hnot.2, hu⟩)
      · rw [List.mem_cons, not_or]
        exact ⟨huv, hoff.1⟩

theorem bfs_inv (hU : ∀ v, ∀ w ∈ succ v, w ∈ U) (fuel : Nat) (visited : Finset V)
    (queue : List V) (h : BfsInv succ start visited queue)
    (hfuel : queue.length + (U \ visited).card < fuel) :
    ∃ out, bfs succ fuel visited queue = some out ∧ BfsInv succ start out [] := by
  induction fuel generalizing visited queue with
  | zero =>
      exact absurd hfuel (Nat.not_lt_zero _)
  | succ fuel ih =>
      cases queue with
      | nil =>
          exact ⟨visited, rfl, h⟩
      | cons v queue =>
          have hcard := card_discover visited (succ v) (hU v)
          refine ih _ _ h.step ?_
          simp only [List.length_cons, List.length_append] at hfuel ⊢
          omega

/-- The walk from a vertex finishes with exactly what it reaches along one edge or more. -/
theorem bfs_spec (hU : ∀ v, ∀ w ∈ succ v, w ∈ U) {fuel : Nat} (hfuel : U.card + 1 < fuel) :
    ∃ out, bfs succ fuel ∅ [start] = some out ∧
      ∀ w, w ∈ out ↔ TransGen (Succ succ) start w := by
  have hinit : BfsInv succ start ∅ [start] := by
    refine ⟨by simp, ?_, ?_⟩
    · intro w hw
      rw [List.mem_singleton.mp hw]
    · intro v hv hoff
      simp at hv hoff
      exact absurd hv hoff
  obtain ⟨out, hout, hinv⟩ := bfs_inv hU fuel ∅ [start] hinit (by simp; omega)
  refine ⟨out, hout, fun w => ⟨hinv.sound w, ?_⟩⟩
  intro hw
  induction hw with
  | single hedge =>
      exact hinv.closed start (Or.inl rfl) List.not_mem_nil _ hedge
  | tail _ hedge ih =>
      exact hinv.closed _ (Or.inr ih) List.not_mem_nil _ hedge

end Bfs

end Digraph
end Lib
end Aivcs
