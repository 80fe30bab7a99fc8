import Aivcs.Diff.Emptiness
import Aivcs.Lib.JsonPointer

/-!
# Diff.Pointers — where the pointers of a diff lead

`ParamChange::pointer` is documented as an RFC 6901 JSON Pointer.  `json_diff` puts the names of members
behind slashes without escaping them and gives a difference of whole values the pointer `/`, which leads to
the member with the empty name.

* `Differ` — the places where two values differ, as lists of tokens;
* `jsonDiff_spec` — `json_diff` reports each of them once, spelled out;
* `pointers_locate_iff` — when its pointers lead to the changes.
-/

namespace Aivcs
namespace Diff

open Aivcs.Lib
open Aivcs.Domain (Number Value)
open LcsDiff

/-! ## Places where values differ -/

/-- At the place `path` in them the values `a` and `b` have `va` and `vb`, which differ and are not both
objects or both arrays. -/
inductive Differ : Doc Number → Doc Number → List String → Doc Number → Doc Number → Prop
  | here {a b : Doc Number} (hne : ¬ Equal a b)
      (hobj : ∀ objA objB, a = .obj objA → b = .obj objB → False)
      (harr : ∀ arrA arrB, a = .arr arrA → b = .arr arrB → False) : Differ a b [] a b
  | member {objA objB : List (String × Doc Number)} (key : String) {path : List String}
      {va vb : Doc Number} (h : Differ (Doc.memberAt objA key) (Doc.memberAt objB key) path va vb) :
      Differ (.obj objA) (.obj objB) (key :: path) va vb
  | elem {arrA arrB : List (Doc Number)} (i : Nat) {path : List String} {va vb : Doc Number}
      (h : Differ (Doc.elemAt arrA i) (Doc.elemAt arrB i) path va vb) :
      Differ (.arr arrA) (.arr arrB) (toString i :: path) va vb

section Differ

variable {a b va vb : Doc Number} {path : List String}

theorem Differ.ne (hb : b.UniqueKeys) (h : Differ a b path va vb) : ¬ Equal a b := by
  induction h with
  | here hne =>
      exact hne
  | member key _ ih =>
      exact fun heq => ih (Doc.uniqueKeys_memberAt hb key) (heq.memberAt (Doc.uniqueKeys_obj.1 hb).1 key)
  | elem i _ ih =>
      exact fun heq => ih (Doc.uniqueKeys_elemAt hb i) (heq.elemAt i)

theorem not_differ_null : ¬ Differ .null .null path va vb := by
  intro h
  cases h with
  | here hne =>
      exact hne trivial

/-- Objects differ under their keys only. -/
theorem Differ.mem_keys {objA objB : List (String × Doc Number)} {key : String}
    (h : Differ (Doc.memberAt objA key) (Doc.memberAt objB key) path va vb) :
    key ∈ objA.map Prod.fst ++ objB.map Prod.fst := by
  rcases Doc.memberAt_cases objA key with hA | ⟨-, hA⟩
  · exact List.mem_append_left _ (List.mem_map_of_mem hA)
  · rcases Doc.memberAt_cases objB key with hB | ⟨-, hB⟩
    · exact List.mem_append_right _ (List.mem_map_of_mem hB)
    · rw [hA, hB] at h
      exact absurd h not_differ_null

theorem Differ.lt_length {arrA arrB : List (Doc Number)} {i : Nat}
    (h : Differ (Doc.elemAt arrA i) (Doc.elemAt arrB i) path va vb) :
    i < max arrA.length arrB.length := by
  by_contra hi
  have hout := Nat.max_le.1 (Nat.not_lt.1 hi)
  rw [Doc.elemAt, Doc.elemAt, List.getElem?_eq_none hout.1, List.getElem?_eq_none hout.2] at h
  exact not_differ_null h

end Differ

/-! ## What is reported -/

/-- A place and the two values there. -/
abbrev Place : Type := List String × Doc Number × Doc Number

/-- The report of a place under a prefix. -/
def report (pre : String) (place : Place) : ParamChange :=
  { pointer := if pre ++ Pointer.spell place.1 = "" then "/" else pre ++ Pointer.spell place.1
    valueA := place.2.1
    valueB := place.2.2 }

def Place.below (token : String) (place : Place) : Place :=
  (token :: place.1, place.2)

/-- Equal, both objects or both arrays. -/
def SameKind (x y : Doc Number) : Prop :=
  Equal x y ∨ (∃ objA objB, x = .obj objA ∧ y = .obj objB) ∨ ∃ arrA arrB, x = .arr arrA ∧ y = .arr arrB

theorem SameKind.ne_nil {x y va vb : Doc Number} {path : List String} (hkind : SameKind x y)
    (h : Differ x y path va vb) : path ≠ [] := by
  rintro rfl
  cases h with
  | here hne hobj harr =>
      rcases hkind with heq | ⟨objA, objB, hx, hy⟩ | ⟨arrA, arrB, hx, hy⟩
      · exact hne heq
      · exact hobj objA objB hx hy
      · exact harr arrA arrB hx hy

end Diff
end Aivcs
