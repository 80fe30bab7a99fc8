import Mathlib.Data.List.Sort

/-!
# SortBy — stable sorting by a key

`sort_by_key`: the elements in the order of their keys, those of one key in the order they came in.

* `sortBy_eq_of_perm` — distinct keys leave one sorted order, so the order of arrival does not matter;
* `filter_sortBy` — what is left out of a sorted list may be left out before it is sorted.
-/

namespace Aivcs
namespace Lib

variable {α κ : Type} [LinearOrder κ] (key : α → κ)

instance keyTotal : Std.Total fun a b : α => key a ≤ key b :=
  ⟨fun a b => le_total (key a) (key b)⟩

instance keyTrans : IsTrans α fun a b : α => key a ≤ key b :=
  ⟨fun _ _ _ => le_trans⟩

def sortBy (l : List α) : List α :=
  l.insertionSort fun a b => key a ≤ key b

variable {key} {l l' : List α}

theorem sortBy_perm : (sortBy key l).Perm l :=
  List.perm_insertionSort _ l

@[simp] theorem mem_sortBy {a : α} : a ∈ sortBy key l ↔ a ∈ l :=
  List.mem_insertionSort _

theorem pairwise_sortBy : (sortBy key l).Pairwise fun a b => key a ≤ key b :=
  List.pairwise_insertionSort _ l

/-- With distinct keys the order is strict. -/
theorem pairwise_lt_sortBy (h : (l.map key).Nodup) :
    (sortBy key l).Pairwise fun a b => key a < key b := by
  have hnodup : (sortBy key l).Pairwise fun a b => key a ≠ key b :=
    List.pairwise_map.1 ((sortBy_perm.map key).nodup_iff.2 h)
  refine (pairwise_sortBy.and hnodup).imp ?_
  rintro a b ⟨hle, hne⟩
  exact lt_of_le_of_ne hle hne

/-- Two lists in strict key order with the same elements are one list. -/
theorem eq_of_perm_of_pairwise_lt (h : l.Perm l') (hl : l.Pairwise fun a b => key a < key b)
    (hl' : l'.Pairwise fun a b => key a < key b) : l = l' := by
  refine List.Perm.eq_of_pairwise ?_ hl hl' h
  intro a b _ _ hab hba
  exact absurd hab hba.asymm

theorem sortBy_eq_of_perm (h : l.Perm l') (hnodup : (l.map key).Nodup) :
    sortBy key l = sortBy key l' := by
  have hnodup' : (l'.map key).Nodup := (h.map key).nodup_iff.1 hnodup
  exact eq_of_perm_of_pairwise_lt ((sortBy_perm.trans h).trans sortBy_perm.symm)
    (pairwise_lt_sortBy hnodup) (pairwise_lt_sortBy hnodup')

theorem filter_sortBy (p : α → Bool) (hnodup : (l.map key).Nodup) :
    (sortBy key l).filter p = sortBy key (l.filter p) := by
  have hsub : ((l.filter p).map key).Nodup := hnodup.sublist (List.filter_sublist.map key)
  refine eq_of_perm_of_pairwise_lt ?_ ((pairwise_lt_sortBy hnodup).sublist List.filter_sublist)
    (pairwise_lt_sortBy hsub)
  exact (sortBy_perm.filter p).trans sortBy_perm.symm

/-- What stands before an element are the elements with smaller keys. -/
theorem before_sortBy {pre post : List α} {a : α} (hnodup : (l.map key).Nodup)
    (h : sortBy key l = pre ++ a :: post) :
    pre = sortBy key (l.filter fun b => key b < key a) := by
  have hsorted := pairwise_lt_sortBy hnodup
  rw [h, List.pairwise_append, List.pairwise_cons] at hsorted
  obtain ⟨_, ⟨hpost, _⟩, hpre⟩ := hsorted
  have hkeep : pre.filter (fun b => key b < key a) = pre :=
    List.filter_eq_self.2 fun b hb => decide_eq_true (hpre b hb a List.mem_cons_self)
  have hdrop : (a :: post).filter (fun b => key b < key a) = [] := by
    refine List.filter_eq_nil_iff.2 ?_
    intro b hb hlt
    rcases List.mem_cons.1 hb with rfl | hb
    · exact absurd (of_decide_eq_true hlt) (lt_irrefl _)
    · exact absurd (of_decide_eq_true hlt) (hpost b hb).asymm
  rw [← filter_sortBy _ hnodup, h, List.filter_append, hkeep, hdrop, List.append_nil]

end Lib
end Aivcs
