import Mathlib.Order.WellFoundedSet
import Aivcs.Lib.Digraph
import Aivcs.Lib.Hash

/-!
# Kahn — level-ordered topological sorting with counters

`relax` takes one off the counter of every successor of a vertex and collects the ones that come to
zero; `kahn` pops the front of a queue, relaxes it, and appends the collected vertices in sorted
order, one level further.  A missing counter, a counter that is zero already and a loop that has not
finished are all `none`.

`Kahn.Inv` is what holds between two rounds.  From it: the loop finishes with every vertex of an
acyclic graph in dependency order, the level of each is the length of the longest chain that ends
there, and levels never decrease along the output.
-/

namespace Aivcs
namespace Lib
namespace Digraph

open Relation

variable {V : Type}

/-! ## Longest chains -/

/-- `n` is the largest number of edges of a walk that ends at `v`. -/
def IsLongest (r : V → V → Prop) (v : V) (n : Nat) : Prop :=
  IsGreatest {m | ∃ l : List V, l.length = m ∧ List.IsChain r (l ++ [v])} n

section Longest

variable {r : V → V → Prop} {v : V} {n : Nat}

theorem isChain_concat_concat {l : List V} {a : V} :
    List.IsChain r (l ++ [a] ++ [v]) ↔ List.IsChain r (l ++ [a]) ∧ r a v := by
  rw [List.isChain_append]
  simp

theorem isLongest_zero (h : ∀ a, ¬ r a v) : IsLongest r v 0 := by
  refine ⟨⟨[], rfl, List.isChain_singleton v⟩, ?_⟩
  rintro m ⟨l, rfl, hl⟩
  rcases List.eq_nil_or_concat' l with rfl | ⟨l, a, rfl⟩
  · exact Nat.le_refl 0
  · exact absurd (isChain_concat_concat.mp hl).2 (h a)

/-- The longest chain to `v` goes on from the one to the predecessor that has the longest. -/
theorem isLongest_succ {a : V} (ha : r a v) (hn : IsLongest r a n)
    (hmax : ∀ b, r b v → ∃ m ≤ n, IsLongest r b m) : IsLongest r v (n + 1) := by
  constructor
  · obtain ⟨l, hlen, hl⟩ := hn.1
    exact ⟨l ++ [a], by simp [hlen], isChain_concat_concat.mpr ⟨hl, ha⟩⟩
  · rintro m ⟨l, rfl, hl⟩
    rcases List.eq_nil_or_concat' l with rfl | ⟨l, b, rfl⟩
    · exact Nat.zero_le _
    · obtain ⟨hb, hbv⟩ := isChain_concat_concat.mp hl
      obtain ⟨m, hm, hlong⟩ := hmax b hbv
      have hle : l.length ≤ m := hlong.2 ⟨l, rfl, hb⟩
      simp only [List.length_append, List.length_singleton]
      omega

/-- An edge makes the longest chain strictly longer. -/
theorem IsLongest.lt_of_edge {a : V} {m : Nat} (hm : IsLongest r a m) (hn : IsLongest r v n)
    (ha : r a v) : m < n := by
  obtain ⟨l, hlen, hl⟩ := hm.1
  have hle : (l ++ [a]).length ≤ n :=
    hn.2 ⟨l ++ [a], rfl, isChain_concat_concat.mpr ⟨hl, ha⟩⟩
  simp only [List.length_append, List.length_singleton] at hle
  omega

/-- A longest chain with an edge in it passes through a predecessor that is one shorter. -/
theorem IsLongest.exists_pred (h : IsLongest r v (n + 1))
    (hall : ∀ a, r a v → ∃ m, IsLongest r a m) : ∃ a, r a v ∧ IsLongest r a n := by
  obtain ⟨l, hlen, hl⟩ := h.1
  rcases List.eq_nil_or_concat' l with rfl | ⟨l, a, rfl⟩
  · simp at hlen
  · obtain ⟨hchain, ha⟩ := isChain_concat_concat.mp hl
    obtain ⟨m, hm⟩ := hall a ha
    have hlt := hm.lt_of_edge h ha
    have hle : l.length ≤ m := hm.2 ⟨l, rfl, hchain⟩
    simp only [List.length_append, List.length_singleton] at hlen
    have hmn : m = n := by omega
    exact ⟨a, ha, hmn ▸ hm⟩

end Longest

/-! ## The loop -/

/-- One counter for each vertex. -/
abbrev Counters (V : Type) : Type :=
  HashMap V Nat

section Relax

variable [DecidableEq V]

/-- Take one off each of the listed counters; the vertices whose counter comes to zero, in the
order they do. -/
def relax (deg : Counters V) : List V → Option (Counters V × List V)
  | [] => some (deg, [])
  | v :: rest =>
      match deg.lookup v with
      | none => none
      | some 0 => none
      | some (n + 1) =>
          match relax (deg.insert v n) rest with
          | none => none
          | some (deg, next) => some (deg, if n = 0 then v :: next else next)

theorem relax_spec (l : List V) (deg : Counters V) (hnodup : l.Nodup)
    (hpos : ∀ v ∈ l, ∃ n, deg.lookup v = some (n + 1)) :
    ∃ deg', relax deg l = some (deg', l.filter fun v => deg.lookup v = some 1) ∧
      ∀ v, deg'.lookup v = if v ∈ l then (deg.lookup v).map (· - 1) else deg.lookup v := by
  induction l generalizing deg with
  | nil =>
      exact ⟨deg, rfl, by simp⟩
  | cons v l ih =>
      obtain ⟨hv, hl⟩ := List.nodup_cons.mp hnodup
      obtain ⟨n, hn⟩ := hpos v List.mem_cons_self
      have hother : ∀ w ∈ l, (deg.insert v n).lookup w = deg.lookup w := by
        intro w hw
        exact Finmap.lookup_insert_of_ne deg fun h => hv (h ▸ hw)
      obtain ⟨deg', hrelax, hdeg'⟩ := ih (deg.insert v n) hl fun w hw => by
        rw [hother w hw]
        exact hpos w (List.mem_cons_of_mem v hw)
      have hfilter : (l.filter fun w => (deg.insert v n).lookup w = some 1) =
          l.filter fun w => deg.lookup w = some 1 :=
        List.filter_congr fun w hw => by rw [hother w hw]
      refine ⟨deg', ?_, ?_⟩
      · rw [hfilter] at hrelax
        simp only [relax, hn, hrelax, List.filter_cons]
        by_cases h0 : n = 0 <;> simp [h0]
      · intro w
        rw [hdeg' w]
        by_cases hwv : w = v
        · subst hwv
          simp [hv, hn]
        · simp [hwv, Finmap.lookup_insert_of_ne deg hwv]

end Relax

section Loop

variable [LinearOrder V]

/-- `relax`, with the vertices that came to zero put in order. -/
def relaxSorted (deg : Counters V) (l : List V) : Option (Counters V × List V) :=
  (relax deg l).map fun r => (r.1, r.2.insertionSort (· ≤ ·))

theorem relaxSorted_cons (deg : Counters V) (v : V) (l : List V) :
    relaxSorted deg (v :: l) =
      match deg.lookup v with
      | none => none
      | some 0 => none
      | some (n + 1) => (relaxSorted (deg.insert v n) l).map fun r =>
          (r.1, if n = 0 then r.2.orderedInsert (· ≤ ·) v else r.2) := by
  rcases hv : deg.lookup v with _ | _ | n
  · simp [relaxSorted, relax, hv]
  · simp [relaxSorted, relax, hv]
  · cases hl : relax (deg.insert v n) l with
    | none =>
        simp [relaxSorted, relax, hv, hl]
    | some res =>
        simp only [relaxSorted, relax, hv, hl, Option.map_some]
        split <;> rfl

/-- The order in which the counters are taken down does not matter. -/
theorem relaxSorted_perm {l l' : List V} (h : l.Perm l') (deg : Counters V) :
    relaxSorted deg l = relaxSorted deg l' := by
  induction h generalizing deg with
  | nil =>
      rfl
  | cons v _ ih =>
      simp only [relaxSorted_cons, ih]
  | swap v w l =>
      by_cases hvw : v = w
      · rw [hvw]
      · have hwv : w ≠ v := fun h => hvw h.symm
        have hcomm (m n : Nat) : (deg.insert w m).insert v n = (deg.insert v n).insert w m :=
          Finmap.insert_insert_of_ne deg hwv
        rcases hv : deg.lookup v with _ | _ | n <;> rcases hw : deg.lookup w with _ | _ | m <;>
          simp only [relaxSorted, relax, Finmap.lookup_insert_of_ne deg hvw,
            Finmap.lookup_insert_of_ne deg hwv, hv, hw, hcomm]
        cases relax ((deg.insert v n).insert w m) l with
        | none =>
            rfl
        | some res =>
            simp only [Option.map_some, Option.some.injEq, Prod.mk.injEq, true_and]
            apply insertionSort_eq_of_perm
            by_cases h0 : n = 0 <;> by_cases h1 : m = 0 <;> simp [h0, h1, List.Perm.swap]
  | trans _ _ ih ih' =>
      exact (ih deg).trans (ih' deg)

/-- The loop with the level of each queued vertex; the vertices in the order they are popped. -/
def kahn (succ : V → List V) : Nat → Counters V → List (V × Nat) → Option (List (V × Nat))
  | 0, _, _ => none
  | _ + 1, _, [] => some []
  | fuel + 1, deg, (v, level) :: queue =>
      match relaxSorted deg (succ v) with
      | none => none
      | some (deg, next) =>
          (kahn succ fuel deg (queue ++ next.map fun w => (w, level + 1))).map ((v, level) :: ·)

/-- The same loop without the levels. -/
def kahnOrder (succ : V → List V) : Nat → Counters V → List V → Option (List V)
  | 0, _, _ => none
  | _ + 1, _, [] => some []
  | fuel + 1, deg, v :: queue =>
      match relaxSorted deg (succ v) with
      | none => none
      | some (deg, next) => (kahnOrder succ fuel deg (queue ++ next)).map (v :: ·)

theorem kahnOrder_eq_map (succ : V → List V) (fuel : Nat) (deg : Counters V)
    (queue : List (V × Nat)) :
    kahnOrder succ fuel deg (queue.map Prod.fst) =
      (kahn succ fuel deg queue).map (List.map Prod.fst) := by
  induction fuel generalizing deg queue with
  | zero =>
      rfl
  | succ fuel ih =>
      cases queue with
      | nil =>
          rfl
      | cons x queue =>
          obtain ⟨v, level⟩ := x
          simp only [List.map_cons, kahnOrder, kahn]
          cases hrelax : relaxSorted deg (succ v) with
          | none =>
              rfl
          | some res =>
              obtain ⟨deg', next⟩ := res
              have hqueue : queue.map Prod.fst ++ next =
                  (queue ++ next.map fun w => (w, level + 1)).map Prod.fst := by
                simp [Function.comp_def]
              simp only [hqueue, ih, Option.map_map]
              rfl

/-- The output does not depend on the order in which a vertex's successors are walked. -/
theorem kahn_perm {succ succ' : V → List V} (h : ∀ v, (succ v).Perm (succ' v)) (fuel : Nat)
    (deg : Counters V) (queue : List (V × Nat)) :
    kahn succ fuel deg queue = kahn succ' fuel deg queue := by
  induction fuel generalizing deg queue with
  | zero =>
      rfl
  | succ fuel ih =>
      cases queue with
      | nil =>
          rfl
      | cons x queue =>
          simp only [kahn, relaxSorted_perm (h x.1), ih]

/-! ## What holds between two rounds -/

/-- The predecessors of `v` that are not popped yet. -/
def waiting (succ : V → List V) (U : Finset V) (done : List (V × Nat)) (v : V) : Finset V :=
  U.filter fun a => v ∈ succ a ∧ a ∉ done.map Prod.fst

/-- A finite graph as the loop reads it: edges stay within `U` and no edge is listed twice. -/
structure Finite (succ : V → List V) (U : Finset V) : Prop where
  source : ∀ {v w : V}, w ∈ succ v → v ∈ U
  target : ∀ {v w : V}, w ∈ succ v → w ∈ U
  nodup : ∀ v, (succ v).Nodup

/-- `done` are the vertices popped so far, in order.  A vertex has been queued exactly when all its
predecessors are done, its counter holds how many are not, and its level is that of the longest
chain to it; the levels in the queue span at most two values. -/
structure KahnInv (succ : V → List V) (U : Finset V) (done : List (V × Nat)) (deg : Counters V)
    (queue : List (V × Nat)) : Prop where
  nodup : ((done ++ queue).map Prod.fst).Nodup
  mem : ∀ x ∈ done ++ queue, x.1 ∈ U
  deg_eq : ∀ v ∈ U, deg.lookup v = some (waiting succ U done v).card
  queued_iff : ∀ v ∈ U, v ∈ (done ++ queue).map Prod.fst ↔ waiting succ U done v = ∅
  ordered : ∀ pre x post, done = pre ++ x :: post →
    ∀ a, x.1 ∈ succ a → a ∈ pre.map Prod.fst
  longest : ∀ x ∈ done ++ queue, IsLongest (Succ succ) x.1 x.2
  sorted : (done ++ queue).Pairwise fun x y => x.2 ≤ y.2
  window : ∀ x ∈ queue.head?, ∀ y ∈ queue, y.2 ≤ x.2 + 1

section Inv

variable {succ : V → List V} {U : Finset V} {done queue : List (V × Nat)} {deg : Counters V}
  {v w : V} {level : Nat}

theorem mem_waiting {a : V} :
    a ∈ waiting succ U done v ↔ a ∈ U ∧ v ∈ succ a ∧ a ∉ done.map Prod.fst := by
  simp [waiting]

/-- Popping `v` takes `v` out of what its successors wait for, and nothing else. -/
theorem waiting_concat : waiting succ U (done ++ [(v, level)]) w =
    (waiting succ U done w).erase v := by
  ext a
  simp only [mem_waiting, Finset.mem_erase, List.map_append, List.map_cons, List.map_nil,
    List.mem_append, List.mem_singleton, not_or]
  tauto

theorem KahnInv.waiting_eq_empty (h : KahnInv succ U done deg queue) {x : V × Nat}
    (hx : x ∈ done ++ queue) : waiting succ U done x.1 = ∅ :=
  (h.queued_iff x.1 (h.mem x hx)).mp (List.mem_map_of_mem hx)

/-- The vertex at the front of the queue has only predecessors that are done. -/
theorem KahnInv.pred_done (h : KahnInv succ U done deg queue) (hG : Finite succ U) {x : V × Nat}
    (hx : x ∈ done ++ queue) {a : V} (ha : x.1 ∈ succ a) : a ∈ done.map Prod.fst := by
  by_contra hnot
  have hmem : a ∈ waiting succ U done x.1 := mem_waiting.mpr ⟨hG.source ha, ha, hnot⟩
  rw [h.waiting_eq_empty hx] at hmem
  exact Finset.notMem_empty a hmem

section Pop

variable (h : KahnInv succ U done deg ((v, level) :: queue)) (hG : Finite succ U)

include h

theorem KahnInv.notMem_done : v ∉ done.map Prod.fst := by
  have hnodup := h.nodup
  rw [List.map_append, List.nodup_append] at hnodup
  intro hv
  exact hnodup.2.2 v hv v (by simp) rfl

theorem KahnInv.level_le {x : V × Nat} (hx : x ∈ done ++ [(v, level)]) : x.2 ≤ level := by
  rcases List.mem_append.mp hx with hx | hx
  · exact (List.pairwise_append.mp h.sorted).2.2 x hx (v, level) List.mem_cons_self
  · rw [List.mem_singleton.mp hx]

/-- Nothing that has been queued lies more than one level further than the front. -/
theorem KahnInv.level_le_succ {x : V × Nat} (hx : x ∈ done ++ (v, level) :: queue) :
    x.2 ≤ level + 1 := by
  rcases List.mem_append.mp hx with hx | hx
  · exact (h.level_le (List.mem_append_left _ hx)).trans (Nat.le_succ level)
  · exact h.window (v, level) rfl x hx

theorem KahnInv.level_le_of_queue {x : V × Nat} (hx : x ∈ queue) : level ≤ x.2 :=
  (List.pairwise_cons.mp (List.pairwise_append.mp h.sorted).2.1).1 x hx

/-- A vertex has been queued by now exactly when it waits for nothing. -/
theorem KahnInv.queued_or_next_iff {next : List V}
    (hnext : ∀ w, w ∈ next ↔ w ∈ succ v ∧ waiting succ U (done ++ [(v, level)]) w = ∅)
    (hw : w ∈ U) :
    w ∈ (done ++ (v, level) :: queue).map Prod.fst ∨ w ∈ next ↔
      waiting succ U (done ++ [(v, level)]) w = ∅ := by
  rw [h.queued_iff w hw, hnext w, waiting_concat]
  constructor
  · rintro (hold | ⟨_, hnew⟩)
    · simp [hold]
    · exact hnew
  · intro hempty
    by_cases hv : v ∈ waiting succ U done w
    · exact Or.inr ⟨(mem_waiting.mp hv).2.1, hempty⟩
    · rw [Finset.erase_eq_of_notMem hv] at hempty
      exact Or.inl hempty

include hG

/-- The successors of the popped vertex wait for it. -/
theorem KahnInv.mem_waiting_succ (hw : w ∈ succ v) : v ∈ waiting succ U done w :=
  mem_waiting.mpr ⟨hG.source hw, hw, h.notMem_done⟩

theorem KahnInv.succ_counter (hw : w ∈ succ v) : ∃ n, deg.lookup w = some (n + 1) := by
  have hcard : 0 < (waiting succ U done w).card :=
    Finset.card_pos.mpr ⟨v, h.mem_waiting_succ hG hw⟩
  obtain ⟨n, hn⟩ := Nat.exists_eq_succ_of_ne_zero hcard.ne'
  exact ⟨n, by rw [h.deg_eq w (hG.target hw), hn]⟩

/-- Relaxing the popped vertex never meets a missing or exhausted counter, and hands over the
vertices that were only waiting for it. -/
theorem KahnInv.relaxSorted_eq : ∃ deg' next, relaxSorted deg (succ v) = some (deg', next) ∧
    (∀ w ∈ U, deg'.lookup w = some (waiting succ U (done ++ [(v, level)]) w).card) ∧
    next.Nodup ∧ ∀ w, w ∈ next ↔ w ∈ succ v ∧ waiting succ U (done ++ [(v, level)]) w = ∅ := by
  obtain ⟨deg', hrelax, hdeg'⟩ := relax_spec (succ v) deg (hG.nodup v) fun w hw =>
    h.succ_counter hG hw
  refine ⟨deg', _, by rw [relaxSorted, hrelax]; rfl, ?_, ?_, ?_⟩
  · intro w hw
    rw [hdeg' w, h.deg_eq w hw, waiting_concat]
    split
    · next hsucc =>
      rw [Option.map_some, Finset.card_erase_of_mem (h.mem_waiting_succ hG hsucc)]
    · next hsucc =>
      rw [Finset.erase_eq_of_notMem]
      exact fun hmem => hsucc (mem_waiting.mp hmem).2.1
  · exact (List.perm_insertionSort _ _).nodup_iff.mpr ((hG.nodup v).filter _)
  · intro w
    rw [List.mem_insertionSort, List.mem_filter, waiting_concat]
    refine and_congr_right fun hsucc => ?_
    have hv := h.mem_waiting_succ hG hsucc
    rw [h.deg_eq w (hG.target hsucc), decide_eq_true_eq, Option.some.injEq,
      ← Finset.card_eq_zero, Finset.card_erase_of_mem hv]
    have hpos : 0 < (waiting succ U done w).card := Finset.card_pos.mpr ⟨v, hv⟩
    omega

/-- The vertices handed over lie one level further than the popped one, and no chain to them is
longer: all their predecessors are done, on levels that do not exceed its own. -/
theorem KahnInv.longest_next (hw : w ∈ succ v)
    (hempty : waiting succ U (done ++ [(v, level)]) w = ∅) :
    IsLongest (Succ succ) w (level + 1) := by
  refine isLongest_succ (a := v) hw (h.longest (v, level) (by simp)) ?_
  intro b hb
  have hdone : b ∈ (done ++ [(v, level)]).map Prod.fst := by
    by_contra hnot
    have hmem : b ∈ waiting succ U (done ++ [(v, level)]) w :=
      mem_waiting.mpr ⟨hG.source hb, hb, hnot⟩
    rw [hempty] at hmem
    exact Finset.notMem_empty b hmem
  obtain ⟨x, hx, rfl⟩ := List.mem_map.mp hdone
  refine ⟨x.2, h.level_le hx, h.longest x ?_⟩
  rw [List.mem_append, List.mem_singleton] at hx
  rw [List.mem_append, List.mem_cons]
  tauto

/-- The vertices handed over have not been queued before. -/
theorem KahnInv.notMem_of_next {next : List V}
    (hnext : ∀ w, w ∈ next ↔ w ∈ succ v ∧ waiting succ U (done ++ [(v, level)]) w = ∅)
    (hw : w ∈ next) : w ∉ (done ++ (v, level) :: queue).map Prod.fst := by
  intro hold
  have hsucc := ((hnext w).mp hw).1
  have hwait := h.mem_waiting_succ hG hsucc
  rw [(h.queued_iff w (hG.target hsucc)).mp hold] at hwait
  exact Finset.notMem_empty v hwait

/-- The popped vertex comes after its predecessors. -/
theorem KahnInv.ordered_concat {pre post : List (V × Nat)} {x : V × Nat}
    (hsplit : done ++ [(v, level)] = pre ++ x :: post) {a : V} (ha : x.1 ∈ succ a) :
    a ∈ pre.map Prod.fst := by
  rcases List.eq_nil_or_concat' post with rfl | ⟨post, y, rfl⟩
  · -- the vertex just popped
    obtain ⟨rfl, hx⟩ := List.append_inj' hsplit rfl
    obtain rfl : x = (v, level) := by simpa using hx.symm
    exact h.pred_done hG (List.mem_append_right _ List.mem_cons_self) ha
  · have hold : done = pre ++ x :: post := by
      have heq : done ++ [(v, level)] = (pre ++ x :: post) ++ [y] := by simpa using hsplit
      exact (List.append_inj' heq rfl).1
    exact h.ordered pre x post hold a ha

/-- One round keeps the invariant. -/
theorem KahnInv.step : ∃ deg' next, relaxSorted deg (succ v) = some (deg', next) ∧
    KahnInv succ U (done ++ [(v, level)]) deg' (queue ++ next.map fun w => (w, level + 1)) := by
  obtain ⟨deg', next, hrelax, hdeg', hnodup, hnext⟩ := h.relaxSorted_eq hG
  refine ⟨deg', next, hrelax, ?_⟩
  have hsplit : done ++ [(v, level)] ++ (queue ++ next.map fun w => (w, level + 1)) =
      (done ++ (v, level) :: queue) ++ next.map fun w => (w, level + 1) := by simp
  have hfst : ((next.map fun w => (w, level + 1)).map Prod.fst) = next := by
    simp [Function.comp_def]
  have hcases {x : V × Nat} (hx : x ∈ done ++ [(v, level)] ++
      (queue ++ next.map fun w => (w, level + 1))) :
      x ∈ done ++ (v, level) :: queue ∨ (x.1 ∈ next ∧ x.2 = level + 1) := by
    rw [hsplit, List.mem_append, List.mem_map] at hx
    rcases hx with hx | ⟨w, hw, rfl⟩
    · exact Or.inl hx
    · exact Or.inr ⟨hw, rfl⟩
  refine ⟨?_, ?_, hdeg', ?_, ?_, ?_, ?_, ?_⟩
  · rw [hsplit, List.map_append, hfst, List.nodup_append]
    refine ⟨h.nodup, hnodup, ?_⟩
    intro a ha b hb hab
    exact h.notMem_of_next hG hnext hb (hab ▸ ha)
  · intro x hx
    rcases hcases hx with hx | ⟨hx, _⟩
    · exact h.mem x hx
    · exact hG.target ((hnext x.1).mp hx).1
  · intro w hw
    rw [hsplit, List.map_append, hfst, List.mem_append]
    exact h.queued_or_next_iff hnext hw
  · intro pre x post hsplit' a ha
    exact h.ordered_concat hG hsplit' ha
  · intro x hx
    rcases hcases hx with hx | ⟨hx, hlevel⟩
    · exact h.longest x hx
    · rw [hlevel]
      exact h.longest_next hG ((hnext x.1).mp hx).1 ((hnext x.1).mp hx).2
  · rw [hsplit, List.pairwise_append]
    refine ⟨h.sorted, ?_, ?_⟩
    · exact List.pairwise_map.mpr (List.Pairwise.imp (fun _ => Nat.le_refl _) hnodup)
    · intro x hx y hy
      obtain ⟨w, _, rfl⟩ := List.mem_map.mp hy
      exact h.level_le_succ hx
  · intro x hx y hy
    have hx' : level ≤ x.2 := by
      rcases List.mem_append.mp (List.mem_of_mem_head? hx) with hq | hn
      · exact h.level_le_of_queue hq
      · obtain ⟨w, _, rfl⟩ := List.mem_map.mp hn
        exact Nat.le_succ level
    have hy' : y.2 ≤ level + 1 := by
      rcases hcases (List.mem_append_right _ hy) with hold | ⟨_, hlevel⟩
      · exact h.level_le_succ hold
      · exact hlevel.le
    exact hy'.trans (Nat.succ_le_succ hx')

end Pop

/-- The whole loop: with fuel for the vertices that are left, it finishes with an empty queue. -/
theorem kahn_spec (hG : Finite succ U) (fuel : Nat) (h : KahnInv succ U done deg queue)
    (hfuel : U.card < fuel + done.length) :
    ∃ out deg', kahn succ fuel deg queue = some out ∧ KahnInv succ U (done ++ out) deg' [] := by
  induction fuel generalizing done deg queue with
  | zero =>
      -- the vertices that are done are distinct members of `U`
      have hle : (done.map Prod.fst).toFinset.card ≤ U.card := by
        apply Finset.card_le_card
        intro v hv
        obtain ⟨x, hx, rfl⟩ := List.mem_map.mp (List.mem_toFinset.mp hv)
        exact h.mem x (List.mem_append_left _ hx)
      have hnodup : (done.map Prod.fst).Nodup := by
        have hall := h.nodup
        rw [List.map_append] at hall
        exact (List.nodup_append.mp hall).1
      rw [List.toFinset_card_of_nodup hnodup, List.length_map] at hle
      omega
  | succ fuel ih =>
      cases queue with
      | nil =>
          exact ⟨[], deg, rfl, by simpa using h⟩
      | cons x queue =>
          obtain ⟨v, level⟩ := x
          obtain ⟨deg', next, hrelax, hinv⟩ := h.step hG
          obtain ⟨out, deg'', hout, hfinal⟩ := ih hinv (by simp; omega)
          refine ⟨(v, level) :: out, deg'', by simp [kahn, hrelax, hout], ?_⟩
          simpa using hfinal

/-- The loop starts with the vertices that wait for nothing. -/
theorem KahnInv.init (hG : Finite succ U) {roots : List V} (hnodup : roots.Nodup)
    (hdeg : ∀ v ∈ U, deg.lookup v = some (U.filter fun a => v ∈ succ a).card)
    (hroots : ∀ v, v ∈ roots ↔ v ∈ U ∧ deg.lookup v = some 0) :
    KahnInv succ U [] deg (roots.map fun v => (v, 0)) := by
  have hwait (v : V) : waiting succ U [] v = U.filter fun a => v ∈ succ a := by
    simp [waiting]
  have hfst : (roots.map fun v => (v, 0)).map Prod.fst = roots := by
    simp [Function.comp_def]
  have hroot {x : V × Nat} (hx : x ∈ roots.map fun v => (v, 0)) :
      x.1 ∈ U ∧ (U.filter fun a => x.1 ∈ succ a) = ∅ ∧ x.2 = 0 := by
    obtain ⟨v, hv, rfl⟩ := List.mem_map.mp hx
    obtain ⟨hU, h0⟩ := (hroots v).mp hv
    rw [hdeg v hU, Option.some.injEq, Finset.card_eq_zero] at h0
    exact ⟨hU, h0, rfl⟩
  refine ⟨?_, fun x hx => (hroot hx).1, ?_, ?_, ?_, ?_, ?_, ?_⟩
  · simpa [hfst] using hnodup
  · intro v hv
    rw [hwait v]
    exact hdeg v hv
  · intro v hv
    rw [List.nil_append, hfst, hroots v, hwait v, hdeg v hv, Option.some.injEq,
      Finset.card_eq_zero]
    exact and_iff_right hv
  · intro pre x post hsplit
    simp at hsplit
  · intro x hx
    obtain ⟨_, hnone, hzero⟩ := hroot hx
    rw [hzero]
    apply isLongest_zero
    intro a ha
    have hmem : a ∈ U.filter fun a => x.1 ∈ succ a := Finset.mem_filter.mpr ⟨hG.source ha, ha⟩
    rw [hnone] at hmem
    exact Finset.notMem_empty a hmem
  · exact List.pairwise_map.mpr (List.Pairwise.imp (fun _ => Nat.le_refl _) hnodup)
  · intro x _ y hy
    rw [(hroot hy).2.2]
    exact Nat.zero_le _

omit [LinearOrder V] in
/-- Induction along the edges of an acyclic relation, within a finite set. -/
theorem Acyclic.induction {r : V → V → Prop} (hr : Acyclic r) (U : Finset V) {P : V → Prop}
    (hstep : ∀ v ∈ U, (∀ a ∈ U, r a v → P a) → P v) : ∀ v ∈ U, P v := by
  have hstrict : IsStrictOrder V (TransGen r) :=
    { irrefl := hr, trans := fun _ _ _ => TransGen.trans }
  have hwf : (U : Set V).WellFoundedOn (TransGen r) := U.wellFoundedOn
  intro v hv
  refine hwf.induction (P := P) hv ?_
  intro w hw ih
  exact hstep w hw fun a ha hedge => ih a ha (TransGen.single hedge)

/-- On an acyclic graph nothing is left waiting when the queue is empty. -/
theorem KahnInv.complete (hacyclic : Acyclic (Succ succ)) (h : KahnInv succ U done deg []) :
    ∀ v ∈ U, v ∈ done.map Prod.fst := by
  refine hacyclic.induction U (P := fun v => v ∈ done.map Prod.fst) ?_
  intro v hv ih
  have hqueued := (h.queued_iff v hv).mpr ?_
  · simpa using hqueued
  · rw [Finset.eq_empty_iff_forall_notMem]
    intro a ha
    obtain ⟨haU, hedge, hnot⟩ := mem_waiting.mp ha
    exact hnot (ih a haU hedge)

end Inv

end Loop

end Digraph
end Lib
end Aivcs
