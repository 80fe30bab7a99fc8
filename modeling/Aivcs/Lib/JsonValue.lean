import Mathlib.Data.String.Basic
import Aivcs.Lib.Json

/-!
# JsonValue — JSON documents compared as values

A library that reads a document into maps forgets the order of the members and keeps the last of
those that share a key.  `canon` is what is left of a document then, and `sameValue` compares two
documents that way.  The elements of an array keep their order.

* `field?_canon` — looking up a member commutes with `canon`;
* `canonMembers_of_sorted` — members that are in order already stay as they are.
-/

namespace Aivcs
namespace Lib
namespace Json

def asBool? : Json → Option Bool
  | .bool b => some b
  | _ => none

/-- Put a member in its place, unless the key is there already. -/
def insertMember (k : String) (v : Json) : List (String × Json) → List (String × Json)
  | [] => [(k, v)]
  | (k', v') :: ms =>
      if k < k' then (k, v) :: (k', v') :: ms
      else if k = k' then (k', v') :: ms
      else (k', v') :: insertMember k v ms

mutual

/-- The document with the members of every object in key order, the last of each key. -/
def canon : Json → Json
  | .arr xs => .arr (canonElems xs)
  | .obj ms => .obj (canonMembers ms)
  | .null => .null
  | .bool b => .bool b
  | .num n => .num n
  | .str s => .str s

def canonElems : List Json → List Json
  | [] => []
  | x :: xs => canon x :: canonElems xs

def canonMembers : List (String × Json) → List (String × Json)
  | [] => []
  | (k, v) :: ms => insertMember k (canon v) (canonMembers ms)

end

/-- The documents stand for the same value. -/
def sameValue (v w : Json) : Bool :=
  render (canon v) = render (canon w)

theorem sameValue_iff {v w : Json} : sameValue v w = true ↔ canon v = canon w := by
  rw [sameValue, decide_eq_true_eq]
  exact render_injective.eq_iff

@[simp] theorem canon_null : canon .null = .null := by
  rw [canon]

@[simp] theorem canon_bool (b : Bool) : canon (.bool b) = .bool b := by
  rw [canon]

@[simp] theorem canon_num (n : Int) : canon (.num n) = .num n := by
  rw [canon]

@[simp] theorem canon_str (s : String) : canon (.str s) = .str s := by
  rw [canon]

theorem canonElems_eq_map (xs : List Json) : canonElems xs = xs.map canon := by
  induction xs with
  | nil =>
      rw [canonElems, List.map_nil]
  | cons x xs ih =>
      rw [canonElems, List.map_cons, ih]

@[simp] theorem canon_arr (xs : List Json) : canon (.arr xs) = .arr (xs.map canon) := by
  rw [canon, canonElems_eq_map]

/-- A list of texts stays as it is. -/
theorem canon_strs (ss : List String) : canon (.arr (ss.map .str)) = .arr (ss.map .str) := by
  rw [canon_arr, List.map_map]
  exact congrArg Json.arr (List.map_congr_left fun s _ => canon_str s)

/-! ## Members -/

theorem reverse_lookup_cons (k k' : String) (v : Json) (ms : List (String × Json)) :
    ((k', v) :: ms).reverse.lookup k =
      (ms.reverse.lookup k).or (if k = k' then some v else none) := by
  rw [List.reverse_cons, List.lookup_append]
  by_cases h : k = k'
  · subst h
    simp
  · have hbeq : (k == k') = false := beq_false_of_ne h
    simp [List.lookup_cons, h, hbeq]

theorem reverse_lookup_insertMember (k k' : String) (v : Json) (ms : List (String × Json)) :
    (insertMember k' v ms).reverse.lookup k =
      (ms.reverse.lookup k).or (if k = k' then some v else none) := by
  induction ms with
  | nil =>
      exact reverse_lookup_cons k k' v []
  | cons m ms ih =>
      obtain ⟨k'', v''⟩ := m
      unfold insertMember
      by_cases hlt : k' < k''
      · rw [if_pos hlt]
        exact reverse_lookup_cons k k' v ((k'', v'') :: ms)
      · rw [if_neg hlt]
        by_cases heq : k' = k''
        · rw [if_pos heq, reverse_lookup_cons, heq]
          by_cases hk : k = k'' <;> simp [hk]
        · rw [if_neg heq, reverse_lookup_cons, ih, reverse_lookup_cons]
          by_cases hk : k = k''
          · have hk' : k ≠ k' := fun h => heq (h.symm.trans hk)
            simp [hk']
          · simp [hk]

theorem reverse_lookup_canonMembers (k : String) (ms : List (String × Json)) :
    (canonMembers ms).reverse.lookup k = (ms.reverse.lookup k).map canon := by
  induction ms with
  | nil =>
      rw [canonMembers]
      rfl
  | cons m ms ih =>
      obtain ⟨k', v⟩ := m
      rw [canonMembers, reverse_lookup_insertMember, ih, reverse_lookup_cons, Option.map_or]
      by_cases hk : k = k' <;> simp [hk]

/-- Looking up a member commutes with `canon`. -/
theorem field?_canon (k : String) (v : Json) : (canon v).field? k = (v.field? k).map canon := by
  cases v with
  | obj ms =>
      rw [canon]
      exact reverse_lookup_canonMembers k ms
  | arr xs =>
      rw [canon]
      rfl
  | _ =>
      rw [canon]
      rfl

/-- Documents of one value have the same members. -/
theorem field?_eq_of_canon_eq {v w : Json} (h : canon v = canon w) (k : String) :
    (v.field? k).map canon = (w.field? k).map canon := by
  rw [← field?_canon, ← field?_canon, h]

/-- Members in key order stay as they are. -/
theorem canonMembers_of_sorted {ms : List (String × Json)}
    (h : ms.Pairwise fun a b => a.1 < b.1) :
    canonMembers ms = ms.map fun m => (m.1, canon m.2) := by
  induction ms with
  | nil =>
      rw [canonMembers, List.map_nil]
  | cons m ms ih =>
      obtain ⟨k, v⟩ := m
      rw [List.pairwise_cons] at h
      rw [canonMembers, ih h.2]
      cases ms with
      | nil =>
          rfl
      | cons m' ms =>
          have hlt : k < m'.1 := h.1 m' List.mem_cons_self
          rw [List.map_cons, insertMember, if_pos hlt]
          rfl

end Json
end Lib
end Aivcs
