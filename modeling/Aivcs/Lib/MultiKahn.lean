import Mathlib.Algebra.BigOperators.Group.Finset.Basic
import Mathlib.Algebra.BigOperators.Group.Finset.Piecewise
import Mathlib.Algebra.Order.BigOperators.Group.Finset
import Aivcs.Lib.Kahn

/-!
# MultiKahn — emptying a queue of a graph with repeated edges

The loop of `Kahn` without its levels, over successor lists that may list an edge several times: the
counter of a vertex holds each of them, and popping the source takes them all off.

`DrainInv` is what holds between two rounds.  From it: no counter is ever missing or taken below zero,
every vertex is popped at most once, and all of them are exactly when the graph has no cycle
(`drain_spec`).
-/

namespace Aivcs
namespace Lib
namespace Digraph

open Relation

variable {V : Type} [DecidableEq V]

/-! ## Counters taken down several times -/

/-- Taking one off the counter of `v` leaves enough for the rest of the list. -/
theorem count_le_insert {l : List V} {deg : Counters V} {v : V} {n : Nat} (hle : l.count v ≤ n)
    (hcount : ∀ w ∈ l, ∃ k, deg.lookup w = some k ∧ (v :: l).count w ≤ k) :
    ∀ w ∈ l, ∃ k, (deg.insert v n).lookup w = some k ∧ l.count w ≤ k := by
  intro w hw
  by_cases hwv : w = v
  · subst hwv
    exact ⟨n, Finmap.lookup_insert _, hle⟩
  · rcases hcount w hw with ⟨k, hk, hkle⟩
    rw [List.count_cons_of_ne (Ne.symm hwv)] at hkle
    exact ⟨k, by rw [Finmap.lookup_insert_of_ne deg hwv, hk], hkle⟩

/-- A vertex reaches zero with the last of its entries: `v` at once, or in the rest of the list. -/
theorem mem_zeroed_iff {l next : List V} {deg : Counters V} {v : V} {n : Nat}
    (hm : deg.lookup v = some (n + 1)) (hle : l.count v ≤ n)
    (hnext : ∀ w, w ∈ next ↔ w ∈ l ∧ (deg.insert v n).lookup w = some (l.count w)) (w : V) :
    w ∈ (if n = 0 then v :: next else next) ↔
      w ∈ v :: l ∧ deg.lookup w = some ((v :: l).count w) := by
  by_cases hwv : w = v
  · subst hwv
    have hself := hnext w
    rw [Finmap.lookup_insert, Option.some.injEq] at hself
    rw [hm, Option.some.injEq, List.count_cons_self]
    split
    · next hzero =>
      simp only [List.mem_cons_self, true_and, true_iff]
      omega
    · next hpos =>
      rw [hself]
      simp only [List.mem_cons_self, true_and]
      constructor
      · rintro ⟨_, heq⟩
        omega
      · intro heq
        exact ⟨List.count_pos_iff.1 (by omega), by omega⟩
  · have hother := hnext w
    rw [Finmap.lookup_insert_of_ne deg hwv] at hother
    rw [List.count_cons_of_ne (Ne.symm hwv)]
    split
    · simp [hwv, hother]
    · simp [hwv, hother]

/-- What `relax` does with a list whose entries repeat. -/
theorem relax_count (l : List V) (deg : Counters V)
    (hcount : ∀ v ∈ l, ∃ n, deg.lookup v = some n ∧ l.count v ≤ n) :
    ∃ deg' next, relax deg l = some (deg', next) ∧
      (∀ v, deg'.lookup v = (deg.lookup v).map (· - l.count v)) ∧
      next.Nodup ∧ ∀ v, v ∈ next ↔ v ∈ l ∧ deg.lookup v = some (l.count v) := by
  induction l generalizing deg with
  | nil =>
      exact ⟨deg, [], rfl, by simp, List.nodup_nil, by simp⟩
  | cons v l ih =>
      rcases List.forall_mem_cons.1 hcount with ⟨⟨m, hm, hle⟩, hcount⟩
      rw [List.count_cons_self] at hle
      obtain ⟨n, rfl⟩ : ∃ n, m = n + 1 := Nat.exists_eq_succ_of_ne_zero (by omega)
      have hle : l.count v ≤ n := Nat.le_of_succ_le_succ hle
      rcases ih (deg.insert v n) (count_le_insert hle hcount)
        with ⟨deg', next, hrelax, hdeg', hnodup, hnext⟩
      refine ⟨deg', if n = 0 then v :: next else next, by simp [relax, hm, hrelax], ?_, ?_,
        mem_zeroed_iff hm hle hnext⟩
      · intro w
        rw [hdeg' w]
        by_cases hwv : w = v
        · subst hwv
          simp [hm]
        · rw [Finmap.lookup_insert_of_ne deg hwv, List.count_cons_of_ne (Ne.symm hwv)]
      · split
        · next hzero =>
          -- With the counter at zero there is no further entry of `v` that could queue it again.
          refine List.nodup_cons.2 ⟨?_, hnodup⟩
          intro hv
          have hpos := List.count_pos_iff.2 ((hnext v).1 hv).1
          omega
        · exact hnodup

/-! ## The loop -/

/-- The vertices in the order they are popped. -/
def drain (succ : V → List V) : Nat → Counters V → List V → Option (List V)
  | 0, _, _ => none
  | _ + 1, _, [] => some []
  | fuel + 1, deg, v :: queue =>
      match relax deg (succ v) with
      | none => none
      | some (deg, next) => (drain succ fuel deg (queue ++ next)).map (v :: ·)

/-- How often `v` is listed by the vertices that are not popped yet. -/
def owed (succ : V → List V) (U : Finset V) (done : List V) (v : V) : Nat :=
  ∑ a ∈ U with a ∉ done, (succ a).count v

/-- `done` are the vertices popped so far, in order.  A counter holds what is owed to its vertex, and
a vertex has been queued exactly when nothing is. -/
structure DrainInv (succ : V → List V) (U : Finset V) (done : List V) (deg : Counters V)
    (queue : List V) : Prop where
  nodup : (done ++ queue).Nodup
  mem : ∀ v ∈ done ++ queue, v ∈ U
  deg_eq : ∀ v ∈ U, deg.lookup v = some (owed succ U done v)
  queued_iff : ∀ v ∈ U, v ∈ done ++ queue ↔ owed succ U done v = 0
  ordered : ∀ pre x post, done = pre ++ x :: post → ∀ a, x ∈ succ a → a ∈ pre

/-- Edges stay within `U`. -/
structure Within (succ : V → List V) (U : Finset V) : Prop where
  source : ∀ {v w : V}, w ∈ succ v → v ∈ U
  target : ∀ {v w : V}, w ∈ succ v → w ∈ U

/-- Over edges that all leave `U`, an edge is listed by one vertex. -/
theorem sum_count_targets {E : Type} {U : Finset V} {source target : E → V} (l : List E)
    (hU : ∀ x ∈ l, source x ∈ U) (v : V) :
    ∑ a ∈ U, ((l.filter fun x => source x = a).map target).count v = (l.map target).count v := by
  induction l with
  | nil =>
      simp
  | cons x l ih =>
      have hrest := ih fun y hy => hU y (List.mem_cons_of_mem x hy)
      -- The edge `x` is counted under its own source and under no other.
      have hone : ∀ a ∈ U, (((x :: l).filter fun y => source y = a).map target).count v =
          ((l.filter fun y => source y = a).map target).count v +
            if a = source x then (if target x = v then 1 else 0) else 0 := by
        intro a _
        by_cases ha : source x = a
        · simp [ha, List.count_cons]
        · simp [ha, Ne.symm ha]
      rw [Finset.sum_congr rfl hone, Finset.sum_add_distrib, hrest, Finset.sum_ite_eq',
        if_pos (hU x List.mem_cons_self)]
      simp [List.count_cons]

section Inv

variable {succ : V → List V} {U : Finset V} {done queue : List V} {deg : Counters V} {v w : V}

theorem owed_eq_zero_iff (hG : Within succ U) :
    owed succ U done w = 0 ↔ ∀ a, w ∈ succ a → a ∈ done := by
  simp only [owed, Finset.sum_eq_zero_iff, Finset.mem_filter, List.count_eq_zero]
  constructor
  · intro h a ha
    by_contra hnot
    exact h a ⟨hG.source ha, hnot⟩ ha
  · rintro h a ⟨_, hnot⟩ ha
    exact hnot (h a ha)

/-- Popping `v` settles what `v` lists. -/
theorem owed_concat (hv : v ∈ U) (hnot : v ∉ done) :
    owed succ U done w = (succ v).count w + owed succ U (done ++ [v]) w := by
  have hrest : {a ∈ U | a ∉ done ++ [v]} = {a ∈ U | a ∉ done}.erase v := by
    ext a
    simp only [Finset.mem_filter, Finset.mem_erase, List.mem_append, List.mem_singleton, not_or]
    tauto
  unfold owed
  rw [hrest]
  exact (Finset.add_sum_erase _ (fun a => (succ a).count w) (by simp [hv, hnot])).symm

section Pop

variable (h : DrainInv succ U done deg (v :: queue)) (hG : Within succ U)

include h

theorem DrainInv.notMem_done : v ∉ done := by
  intro hv
  exact (List.nodup_append.1 h.nodup).2.2 v hv v List.mem_cons_self rfl

theorem DrainInv.mem_front : v ∈ U :=
  h.mem v (by simp)

include hG

theorem DrainInv.ordered_concat {pre post : List V} {x : V}
    (hsplit : done ++ [v] = pre ++ x :: post) {a : V} (ha : x ∈ succ a) : a ∈ pre := by
  rcases List.eq_nil_or_concat' post with rfl | ⟨post, y, rfl⟩
  · -- the vertex just popped
    obtain ⟨rfl, hx⟩ := List.append_inj' hsplit rfl
    obtain rfl : v = x := by simpa using hx
    have hzero := (h.queued_iff v h.mem_front).1 (by simp)
    exact (owed_eq_zero_iff hG).1 hzero a ha
  · have hold : done ++ [v] = (pre ++ x :: post) ++ [y] := by simpa using hsplit
    exact h.ordered pre x post (List.append_inj' hold rfl).1 a ha

/-- One round keeps the invariant. -/
theorem DrainInv.step : ∃ deg' next, relax deg (succ v) = some (deg', next) ∧
    DrainInv succ U (done ++ [v]) deg' (queue ++ next) := by
  have howed (w : V) : owed succ U done w = (succ v).count w + owed succ U (done ++ [v]) w :=
    owed_concat h.mem_front h.notMem_done
  have hcount : ∀ w ∈ succ v, ∃ n, deg.lookup w = some n ∧ (succ v).count w ≤ n := by
    intro w hw
    exact ⟨_, h.deg_eq w (hG.target hw), by rw [howed w]; exact Nat.le_add_right _ _⟩
  rcases relax_count (succ v) deg hcount with ⟨deg', next, hrelax, hdeg', hnodup, hnext⟩
  have hnext' : ∀ w, w ∈ next ↔ w ∈ succ v ∧ owed succ U (done ++ [v]) w = 0 := by
    intro w
    rw [hnext w]
    refine and_congr_right fun hw => ?_
    rw [h.deg_eq w (hG.target hw), Option.some.injEq, howed w]
    omega
  have hsplit : done ++ [v] ++ (queue ++ next) = (done ++ v :: queue) ++ next := by simp
  refine ⟨deg', next, hrelax, ?_, ?_, ?_, ?_, ?_⟩
  · rw [hsplit, List.nodup_append]
    refine ⟨h.nodup, hnodup, ?_⟩
    -- What is handed over was owed the edges of `v`, so it had not been queued.
    rintro a hold b hb rfl
    have hsucc := ((hnext' a).1 hb).1
    have hzero := (h.queued_iff a (hG.target hsucc)).1 hold
    have hpos := List.count_pos_iff.2 hsucc
    have := howed a
    omega
  · intro w hw
    rw [hsplit, List.mem_append] at hw
    rcases hw with hold | hnew
    · exact h.mem w hold
    · exact hG.target ((hnext' w).1 hnew).1
  · intro w hw
    rw [hdeg' w, h.deg_eq w hw, Option.map_some, howed w, Nat.add_sub_cancel_left]
  · intro w hw
    rw [hsplit, List.mem_append, h.queued_iff w hw, hnext' w, howed w]
    constructor
    · rintro (hzero | ⟨_, hzero⟩)
      · omega
      · exact hzero
    · intro hzero
      by_cases hsucc : w ∈ succ v
      · exact .inr ⟨hsucc, hzero⟩
      · exact .inl (by rw [List.count_eq_zero_of_not_mem hsucc, hzero])
  · intro pre x post hsplit' a ha
    exact h.ordered_concat hG hsplit' ha

end Pop

theorem DrainInv.length_done_le (h : DrainInv succ U done deg queue) : done.length ≤ U.card := by
  have hnodup : done.Nodup := (List.nodup_append.1 h.nodup).1
  calc
    done.length = done.toFinset.card := (List.toFinset_card_of_nodup hnodup).symm
    _ ≤ U.card := by
        apply Finset.card_le_card
        intro v hv
        exact h.mem v (List.mem_append_left _ (List.mem_toFinset.1 hv))

/-- The whole loop: with fuel for the vertices that are left, it finishes with an empty queue. -/
theorem DrainInv.run (hG : Within succ U) (fuel : Nat) (h : DrainInv succ U done deg queue)
    (hfuel : U.card < fuel + done.length) :
    ∃ out deg', drain succ fuel deg queue = some out ∧ DrainInv succ U (done ++ out) deg' [] := by
  induction fuel generalizing done deg queue with
  | zero =>
      have := h.length_done_le
      omega
  | succ fuel ih =>
      cases queue with
      | nil =>
          exact ⟨[], deg, rfl, by simpa using h⟩
      | cons v queue =>
          rcases h.step hG with ⟨deg', next, hrelax, hinv⟩
          rcases ih hinv (by simp; omega) with ⟨out, deg'', hout, hfinal⟩
          refine ⟨v :: out, deg'', by simp [drain, hrelax, hout], ?_⟩
          simpa using hfinal

/-- An edge goes from an earlier to a later vertex of the order. -/
theorem DrainInv.idxOf_lt (h : DrainInv succ U done deg queue) {a b : V} (hb : b ∈ done)
    (hedge : Succ succ a b) : a ∈ done ∧ done.idxOf a < done.idxOf b := by
  rcases List.append_of_mem hb with ⟨pre, post, hsplit⟩
  have ha : a ∈ pre := h.ordered pre b post hsplit a hedge
  have hnodup : (pre ++ b :: post).Nodup := hsplit ▸ (List.nodup_append.1 h.nodup).1
  have hbpre : b ∉ pre := by
    intro hmem
    exact (List.nodup_append.1 hnodup).2.2 b hmem b List.mem_cons_self rfl
  refine ⟨by simp [hsplit, ha], ?_⟩
  calc
    done.idxOf a = pre.idxOf a := by rw [hsplit, List.idxOf_append_of_mem ha]
    _ < pre.length := List.idxOf_lt_length_iff.2 ha
    _ = done.idxOf b := by
        rw [hsplit, List.idxOf_append_of_notMem hbpre, List.idxOf_cons_self, Nat.add_zero]

/-- When the queue is empty, everything has been popped exactly when there is no cycle. -/
theorem DrainInv.length_eq_iff (hG : Within succ U) (h : DrainInv succ U done deg []) :
    done.length = U.card ↔ Acyclic (Succ succ) := by
  have hnodup : done.Nodup := (List.nodup_append.1 h.nodup).1
  have hsub : done.toFinset ⊆ U := fun v hv => h.mem v (by simpa using hv)
  constructor
  · intro hlen v hcycle
    have hall : ∀ {v}, v ∈ U → v ∈ done := by
      intro v hv
      have heq := Finset.eq_of_subset_of_card_le hsub
        (by rw [List.toFinset_card_of_nodup hnodup, hlen])
      exact List.mem_toFinset.1 (heq ▸ hv)
    have hlt : ∀ {a b}, TransGen (Succ succ) a b → done.idxOf a < done.idxOf b := by
      intro a b hwalk
      induction hwalk with
      | single hedge =>
          exact (h.idxOf_lt (hall (hG.target hedge)) hedge).2
      | tail _ hedge ih =>
          exact ih.trans (h.idxOf_lt (hall (hG.target hedge)) hedge).2
    exact Nat.lt_irrefl _ (hlt hcycle)
  · intro hacyclic
    have hall : ∀ v ∈ U, v ∈ done := by
      refine hacyclic.induction U ?_
      intro v hv ih
      have hzero : owed succ U done v = 0 :=
        (owed_eq_zero_iff hG).2 fun a ha => ih a (hG.source ha) ha
      simpa using (h.queued_iff v hv).2 hzero
    have heq : done.toFinset = U :=
      Finset.Subset.antisymm hsub fun v hv => List.mem_toFinset.2 (hall v hv)
    rw [← heq, List.toFinset_card_of_nodup hnodup]

/-- From counters that hold how often each vertex is listed and a queue of those that are not listed,
the loop finishes with an empty queue and its invariant. -/
theorem drain_inv (hG : Within succ U) {roots : List V} (hnodup : roots.Nodup)
    (hdeg : ∀ v ∈ U, deg.lookup v = some (∑ a ∈ U, (succ a).count v))
    (hroots : ∀ v, v ∈ roots ↔ v ∈ U ∧ deg.lookup v = some 0) :
    ∃ out deg', drain succ (U.card + 1) deg roots = some out ∧ DrainInv succ U out deg' [] := by
  have howed : ∀ v, owed succ U [] v = ∑ a ∈ U, (succ a).count v := by
    intro v
    simp [owed]
  have hinit : DrainInv succ U [] deg roots := by
    refine ⟨by simpa using hnodup, fun v hv => ((hroots v).1 (by simpa using hv)).1, ?_, ?_, ?_⟩
    · intro v hv
      rw [howed v, hdeg v hv]
    · intro v hv
      rw [List.nil_append, hroots v, hdeg v hv, howed v, Option.some.injEq]
      exact and_iff_right hv
    · intro pre x post hsplit
      simp at hsplit
  exact hinit.run hG (U.card + 1) (by simp)

/-- It has then popped every vertex exactly when there is no cycle. -/
theorem drain_spec (hG : Within succ U) {roots : List V} (hnodup : roots.Nodup)
    (hdeg : ∀ v ∈ U, deg.lookup v = some (∑ a ∈ U, (succ a).count v))
    (hroots : ∀ v, v ∈ roots ↔ v ∈ U ∧ deg.lookup v = some 0) :
    ∃ out, drain succ (U.card + 1) deg roots = some out ∧
      (out.length = U.card ↔ Acyclic (Succ succ)) := by
  rcases drain_inv hG hnodup hdeg hroots with ⟨out, deg', hout, hfinal⟩
  exact ⟨out, hout, hfinal.length_eq_iff hG⟩

end Inv

end Digraph
end Lib
end Aivcs
