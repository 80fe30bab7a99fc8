import Mathlib.Logic.Function.Basic

/-!
# Map — partial maps with overwriting insertion

The hash maps and the tables of a store, seen through their lookups: a key holds a value or
nothing, `insert` overwrites and `insertNew` is the insertion that leaves an existing row alone.
-/

namespace Aivcs
namespace Lib

/-- A map as the function that looks a key up. -/
def Map (K V : Type) : Type := K → Option V

namespace Map

variable {K V : Type}

instance : EmptyCollection (Map K V) where
  emptyCollection := fun _ => none

@[simp] theorem empty_apply (k : K) : (∅ : Map K V) k = none := rfl

@[ext] theorem ext {m m' : Map K V} (h : ∀ k, m k = m' k) : m = m' :=
  funext h

section Insert

variable [DecidableEq K]

def insert (m : Map K V) (k : K) (v : V) : Map K V :=
  Function.update m k (some v)

/-- Insert unless the key is taken (`ON CONFLICT DO NOTHING`). -/
def insertNew (m : Map K V) (k : K) (v : V) : Map K V :=
  match m k with
  | some _ => m
  | none => m.insert k v

theorem insert_apply (m : Map K V) (k k' : K) (v : V) :
    m.insert k v k' = if k' = k then some v else m k' :=
  Function.update_apply m k (some v) k'

@[simp] theorem insert_self (m : Map K V) (k : K) (v : V) : m.insert k v k = some v := by
  simp [insert_apply]

theorem insert_of_ne (m : Map K V) {k k' : K} (v : V) (h : k' ≠ k) : m.insert k v k' = m k' := by
  simp [insert_apply, h]

theorem insert_insert (m : Map K V) (k : K) (v w : V) :
    (m.insert k v).insert k w = m.insert k w := by
  unfold insert
  exact Function.update_idem _ _ _

theorem isSome_insert (m : Map K V) (k k' : K) (v : V) :
    (m.insert k v k').isSome = true ↔ k' = k ∨ (m k').isSome = true := by
  by_cases h : k' = k
  · simp [h]
  · simp [insert_of_ne m v h, h]

theorem insertNew_apply (m : Map K V) (k k' : K) (v : V) :
    m.insertNew k v k' = if k' = k then some ((m k).getD v) else m k' := by
  unfold insertNew
  cases hk : m k with
  | none =>
      simp [insert_apply]
  | some w =>
      by_cases h : k' = k
      · simp [h, hk]
      · simp [h]

/-- What an insertion can make a lookup answer: the new value at its key, an old one elsewhere. -/
theorem insert_eq_some {m : Map K V} {k k' : K} {v v' : V} (h : m.insert k v k' = some v') :
    (k' = k ∧ v' = v) ∨ (k' ≠ k ∧ m k' = some v') := by
  by_cases hk : k' = k
  · subst hk
    exact Or.inl ⟨rfl, (Option.some.inj (by simpa using h)).symm⟩
  · rw [insert_of_ne m v hk] at h
    exact Or.inr ⟨hk, h⟩

/-! ## Inserting a list of values under keys derived from them -/

section Derived

variable {key : V → K}

theorem foldl_insert_of_notMem {vs : List V} {k : K} (h : k ∉ vs.map key) (m : Map K V) :
    vs.foldl (fun m v => m.insert (key v) v) m k = m k := by
  induction vs generalizing m with
  | nil =>
      rfl
  | cons v vs ih =>
      rw [List.map_cons, List.mem_cons, not_or] at h
      rw [List.foldl_cons, ih h.2, insert_of_ne m v h.1]

/-- A key holds the last of its values, or what it held before. -/
theorem foldl_insert_apply (vs : List V) (m : Map K V) (k : K) :
    vs.foldl (fun m v => m.insert (key v) v) m k =
      ((vs.filter fun v => key v = k).getLast?).or (m k) := by
  induction vs generalizing m with
  | nil =>
      rfl
  | cons v vs ih =>
      rw [List.foldl_cons, ih, insert_apply]
      by_cases hv : key v = k
      · rw [if_pos hv.symm, List.filter_cons_of_pos (by simpa using hv), List.getLast?_cons]
        cases (vs.filter fun v => key v = k).getLast? <;> rfl
      · rw [if_neg (Ne.symm hv), List.filter_cons_of_neg (by simpa using hv)]

/-- Keys that determine their values: each value ends up under its key. -/
theorem foldl_insert_of_mem (hkey : Function.Injective key) {vs : List V} {v : V} (h : v ∈ vs)
    (m : Map K V) : vs.foldl (fun m v => m.insert (key v) v) m (key v) = some v := by
  induction vs generalizing m with
  | nil =>
      cases h
  | cons w vs ih =>
      rw [List.foldl_cons]
      -- A later occurrence of the value decides; if this is the last one, the rest has other keys.
      by_cases hv : v ∈ vs
      · exact ih hv _
      · obtain rfl : v = w := (List.mem_cons.1 h).resolve_right hv
        have hnot : key v ∉ vs.map key := by
          rintro hmem
          rcases List.mem_map.1 hmem with ⟨w, hw, heq⟩
          exact hv (hkey heq ▸ hw)
        rw [foldl_insert_of_notMem hnot, insert_self]

theorem foldl_insertNew_of_notMem {vs : List V} {k : K} (h : k ∉ vs.map key) (m : Map K V) :
    vs.foldl (fun m v => m.insertNew (key v) v) m k = m k := by
  induction vs generalizing m with
  | nil =>
      rfl
  | cons v vs ih =>
      rw [List.map_cons, List.mem_cons, not_or] at h
      rw [List.foldl_cons, ih h.2, insertNew_apply, if_neg h.1]

/-- A key that is taken keeps its value, whatever is inserted. -/
theorem foldl_insertNew_of_some {vs : List V} {k : K} {w : V} {m : Map K V} (h : m k = some w) :
    vs.foldl (fun m v => m.insertNew (key v) v) m k = some w := by
  induction vs generalizing m with
  | nil =>
      exact h
  | cons v vs ih =>
      rw [List.foldl_cons]
      apply ih
      by_cases hk : k = key v
      · rw [insertNew_apply, if_pos hk, ← hk, h]
        rfl
      · rw [insertNew_apply, if_neg hk, h]

theorem foldl_insertNew_of_none (hkey : Function.Injective key) {vs : List V} {v : V} (h : v ∈ vs)
    {m : Map K V} (hnone : m (key v) = none) :
    vs.foldl (fun m v => m.insertNew (key v) v) m (key v) = some v := by
  induction vs generalizing m with
  | nil =>
      cases h
  | cons w vs ih =>
      rw [List.foldl_cons]
      -- The first occurrence of the value takes the key; before it the key stays free.
      by_cases hw : v = w
      · subst hw
        apply foldl_insertNew_of_some
        rw [insertNew_apply, if_pos rfl, hnone]
        rfl
      · have hne : key v ≠ key w := fun heq => hw (hkey heq)
        refine ih ((List.mem_cons.1 h).resolve_left hw) ?_
        rw [insertNew_apply, if_neg hne, hnone]

end Derived

/-! ## Taking a key out -/

def erase (m : Map K V) (k : K) : Map K V :=
  Function.update m k none

theorem erase_apply (m : Map K V) (k k' : K) : m.erase k k' = if k' = k then none else m k' :=
  Function.update_apply m k none k'

@[simp] theorem erase_self (m : Map K V) (k : K) : m.erase k k = none := by
  simp [erase_apply]

theorem erase_of_ne (m : Map K V) {k k' : K} (h : k' ≠ k) : m.erase k k' = m k' := by
  simp [erase_apply, h]

theorem erase_eq_some {m : Map K V} {k k' : K} {v : V} (h : m.erase k k' = some v) :
    k' ≠ k ∧ m k' = some v := by
  by_cases hk : k' = k
  · subst hk
    rw [erase_self] at h
    cases h
  · exact ⟨hk, (erase_of_ne m hk).symm.trans h⟩

end Insert

end Map

end Lib
end Aivcs
