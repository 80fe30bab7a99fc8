import Mathlib.Data.List.Basic
import Mathlib.Data.List.Induction

/-!
# Splits — an element of a list and the elements before it

A loop over a list meets each element after those before it.  `ForallSplits p xs` says that `p` holds at
every such meeting; it is proved, and used, one element at a time from the end (`forallSplits_concat`).

`rposition p xs` is the place of the last element with `p`: it has the property and nothing after it has
(`rposition_eq_some`).
-/

namespace Aivcs
namespace Lib

variable {α : Type}

/-- A list with one more element at the end is cut at that element, or at an earlier one. -/
theorem concat_eq_append_cons {xs pre post : List α} {x y : α} :
    xs ++ [x] = pre ++ y :: post ↔
      (∃ post', post = post' ++ [x] ∧ xs = pre ++ y :: post') ∨ (post = [] ∧ xs = pre ∧ x = y) := by
  constructor
  · intro h
    rcases List.eq_nil_or_concat post with rfl | ⟨post', z, rfl⟩
    · obtain ⟨rfl, hx⟩ := List.append_inj' h rfl
      cases hx
      exact Or.inr ⟨rfl, rfl, rfl⟩
    · rw [List.concat_eq_append, ← List.cons_append, ← List.append_assoc] at h
      obtain ⟨rfl, hx⟩ := List.append_inj' h rfl
      cases hx
      exact Or.inl ⟨post', List.concat_eq_append, rfl⟩
  · rintro (⟨post', rfl, rfl⟩ | ⟨rfl, rfl, rfl⟩)
    · simp
    · rfl

/-- The property holds of every element and the elements before it. -/
def ForallSplits (p : List α → α → Prop) (xs : List α) : Prop :=
  ∀ pre x post, xs = pre ++ x :: post → p pre x

variable {p : List α → α → Prop} {xs : List α} {x : α}

theorem forallSplits_nil : ForallSplits p [] := by
  intro pre x post h
  exact absurd h (by simp)

theorem forallSplits_concat : ForallSplits p (xs ++ [x]) ↔ ForallSplits p xs ∧ p xs x := by
  constructor
  · intro h
    refine ⟨?_, h xs x [] rfl⟩
    intro pre y post hsplit
    exact h pre y (post ++ [x]) (concat_eq_append_cons.2 (Or.inl ⟨post, rfl, hsplit⟩))
  · rintro ⟨h, hx⟩ pre y post hsplit
    rcases concat_eq_append_cons.1 hsplit with ⟨post', _, hxs⟩ | ⟨_, rfl, rfl⟩
    · exact h pre y post' hxs
    · exact hx

/-! ## The last element with a property -/

section Rposition

variable {p : α → Bool} {xs : List α}

/-- `Iterator::rposition`. -/
def rposition (p : α → Bool) : (xs : List α) → Option (Fin xs.length)
  | [] => none
  | x :: xs =>
      match rposition p xs with
      | some i => some i.succ
      | none => if p x then some 0 else none

theorem rposition_eq_none : rposition p xs = none ↔ ∀ x ∈ xs, p x = false := by
  induction xs with
  | nil => simp [rposition]
  | cons x xs ih =>
      cases hrest : rposition p xs with
      | some i =>
          have hnot : ¬ ∀ x ∈ xs, p x = false := fun h => by simp [ih.2 h] at hrest
          simp only [rposition, hrest, reduceCtorEq, List.mem_cons, false_iff]
          exact fun h => hnot fun x hx => h x (Or.inr hx)
      | none =>
          simp only [rposition, hrest, List.mem_cons, forall_eq_or_imp]
          cases hx : p x with
          | false => simpa using ih.1 hrest
          | true => simp

theorem rposition_eq_some {i : Fin xs.length} (h : rposition p xs = some i) :
    xs = xs.take i ++ xs.get i :: xs.drop (i + 1) ∧ p (xs.get i) = true ∧
      ∀ x ∈ xs.drop (i + 1), p x = false := by
  refine ⟨?_, ?_⟩
  · rw [List.get_eq_getElem, List.getElem_cons_drop, List.take_append_drop]
  · induction xs with
    | nil => exact i.elim0
    | cons x xs ih =>
        simp only [rposition] at h
        cases hrest : rposition p xs with
        | some j =>
            rw [hrest] at h
            obtain rfl := Option.some.inj h
            exact ih hrest
        | none =>
            rw [hrest] at h
            cases hx : p x with
            | false => simp [hx] at h
            | true =>
                simp only [hx, if_true, Option.some.injEq] at h
                subst h
                exact ⟨hx, rposition_eq_none.1 hrest⟩

end Rposition

end Lib
end Aivcs
