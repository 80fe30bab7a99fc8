import Mathlib.Data.List.Forall2
import Aivcs.Lib.Decimal

/-!
# Lexicographic — comparisons of lists and of projections

`List.compareLex` in terms of the relations that the comparison of the members decides: the first members that
differ decide, and a proper prefix comes first.
-/

namespace Aivcs
namespace Lib

variable {α β : Type}

/-- The lexicographic order of lists, with `same` in the place of equality. -/
inductive LexLt (lt same : α → α → Prop) : List α → List α → Prop where
  | nil {y : α} {ys : List α} : LexLt lt same [] (y :: ys)
  | head {x y : α} {xs ys : List α} : lt x y → LexLt lt same (x :: xs) (y :: ys)
  | tail {x y : α} {xs ys : List α} : same x y → LexLt lt same xs ys → LexLt lt same (x :: xs) (y :: ys)

section Compare

variable {cmp : α → α → Ordering} {lt same : α → α → Prop}

theorem compareLex_eq_lt_iff (hlt : ∀ x y, cmp x y = .lt ↔ lt x y) (heq : ∀ x y, cmp x y = .eq ↔ same x y)
    (xs ys : List α) : List.compareLex cmp xs ys = .lt ↔ LexLt lt same xs ys := by
  constructor
  · intro h
    induction xs generalizing ys with
    | nil =>
        cases ys with
        | nil =>
            cases h
        | cons y ys =>
            exact .nil
    | cons x xs ih =>
        cases ys with
        | nil =>
            cases h
        | cons y ys =>
            rw [List.compareLex_cons_cons, Ordering.then_eq_lt] at h
            rcases h with hxy | ⟨hxy, hrest⟩
            · exact .head ((hlt x y).mp hxy)
            · exact .tail ((heq x y).mp hxy) (ih ys hrest)
  · intro h
    induction h with
    | nil =>
        rfl
    | head hxy =>
        rw [List.compareLex_cons_cons, (hlt _ _).mpr hxy]
        rfl
    | tail hxy _ ih =>
        rw [List.compareLex_cons_cons, (heq _ _).mpr hxy]
        exact ih

theorem compareLex_eq_eq_iff (heq : ∀ x y, cmp x y = .eq ↔ same x y) (xs ys : List α) :
    List.compareLex cmp xs ys = .eq ↔ List.Forall₂ same xs ys := by
  induction xs generalizing ys with
  | nil =>
      cases ys with
      | nil =>
          exact iff_of_true rfl .nil
      | cons y ys =>
          exact iff_of_false (fun h => by cases h) (fun h => by cases h)
  | cons x xs ih =>
      cases ys with
      | nil =>
          exact iff_of_false (fun h => by cases h) (fun h => by cases h)
      | cons y ys =>
          rw [List.compareLex_cons_cons, Ordering.then_eq_eq, List.forall₂_cons, heq, ih]

theorem transCmp_comap (cmp : α → α → Ordering) [Std.TransCmp cmp] (f : β → α) :
    Std.TransCmp fun a b => cmp (f a) (f b) where
  eq_swap := Std.OrientedCmp.eq_swap
  isLE_trans := Std.TransCmp.isLE_trans

end Compare

/-! ## Texts -/

/-- The order of texts by their characters; that of the bytes in UTF-8 is the same. -/
def TextLt : List Char → List Char → Prop :=
  LexLt (· < ·) (· = ·)

theorem compare_text_eq_lt_iff (xs ys : List Char) : compare xs ys = .lt ↔ TextLt xs ys :=
  compareLex_eq_lt_iff
    (fun c d => by rw [compare_char, Nat.compare_eq_lt, Char.lt_def, UInt32.lt_iff_toNat_lt, Char.toNat, Char.toNat])
    (fun c d => Std.LawfulEqOrd.compare_eq_iff_eq) xs ys

end Lib
end Aivcs
