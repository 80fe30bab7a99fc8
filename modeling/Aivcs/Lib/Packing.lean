import Mathlib.Algebra.BigOperators.Group.List.Basic
import Mathlib.Algebra.GroupWithZero.Nat
import Aivcs.Lib.Checked
import Aivcs.Lib.Splits

/-!
# Packing — greedy packing into a capacity

The items come one after the other, and one is kept if its size added to what is kept already is within
the capacity.  `kept` does this on the natural numbers; `pack` is the loop on 64-bit words, where the sum
that is compared can overflow.

* `isPacking_kept` — what is kept fits, in the order it came, and nothing that would have fitted is left out;
* `pack_eq` — the loop keeps the same items exactly while no sum overflows.
-/

namespace Aivcs
namespace Lib

variable {α : Type}

/-- The sum of the sizes. -/
def load (size : α → Nat) (xs : List α) : Nat :=
  (xs.map size).sum

/-- The items are some of the list, in its order and within the capacity; at every place of the list the
item is kept, or its size added to what is kept before it exceeds the capacity. -/
structure IsPacking (size : α → Nat) (capacity : Nat) (xs items : List α) : Prop where
  load_le : load size items ≤ capacity
  sublist : items.Sublist xs
  place : ∀ pre x post, xs = pre ++ x :: post → ∃ before more,
    before.Sublist pre ∧ more.Sublist post ∧
      (items = before ++ x :: more ∨ (items = before ++ more ∧ capacity < load size before + size x))

def keep (size : α → Nat) (capacity : Nat) (items : List α) (x : α) : List α :=
  if load size items + size x ≤ capacity then items ++ [x] else items

def kept (size : α → Nat) (capacity : Nat) (xs : List α) : List α :=
  xs.foldl (keep size capacity) []

section Kept

variable {size : α → Nat} {capacity : Nat} {xs : List α} {x : α}

@[simp] theorem load_nil : load size [] = 0 := rfl

theorem load_concat : load size (xs ++ [x]) = load size xs + size x := by
  simp [load]

@[simp] theorem kept_nil : kept size capacity [] = [] := rfl

theorem kept_concat : kept size capacity (xs ++ [x]) = keep size capacity (kept size capacity xs) x := by
  rw [kept, List.foldl_append]
  rfl

theorem kept_concat_of_le (h : load size (kept size capacity xs) + size x ≤ capacity) :
    kept size capacity (xs ++ [x]) = kept size capacity xs ++ [x] :=
  kept_concat.trans (if_pos h)

theorem kept_concat_of_lt (h : capacity < load size (kept size capacity xs) + size x) :
    kept size capacity (xs ++ [x]) = kept size capacity xs :=
  kept_concat.trans (if_neg (Nat.not_le.2 h))

theorem isPacking_kept : IsPacking size capacity xs (kept size capacity xs) := by
  induction xs using List.reverseRecOn with
  | nil =>
      exact ⟨Nat.zero_le _, List.Sublist.slnil, fun _ _ _ h => absurd h (by simp)⟩
  | append_singleton xs y ih =>
      by_cases hfits : load size (kept size capacity xs) + size y ≤ capacity
      · rw [kept_concat_of_le hfits]
        refine ⟨by rwa [load_concat], ih.sublist.append (List.Sublist.refl _), ?_⟩
        intro pre x post hsplit
        rcases concat_eq_append_cons.1 hsplit with ⟨post', rfl, hxs⟩ | ⟨rfl, rfl, rfl⟩
        · obtain ⟨before, more, hbefore, hmore, hplace⟩ := ih.place pre x post' hxs
          refine ⟨before, more ++ [y], hbefore, hmore.append (List.Sublist.refl _), ?_⟩
          rcases hplace with heq | ⟨heq, hlt⟩
          · exact Or.inl (by rw [heq]; simp)
          · exact Or.inr ⟨by rw [heq]; simp, hlt⟩
        · exact ⟨_, [], ih.sublist, List.Sublist.slnil, Or.inl rfl⟩
      · have hlt : capacity < load size (kept size capacity xs) + size y := Nat.not_le.1 hfits
        rw [kept_concat_of_lt hlt]
        refine ⟨ih.load_le, ih.sublist.trans (List.sublist_append_left xs [y]), ?_⟩
        intro pre x post hsplit
        rcases concat_eq_append_cons.1 hsplit with ⟨post', rfl, hxs⟩ | ⟨rfl, rfl, rfl⟩
        · obtain ⟨before, more, hbefore, hmore, hplace⟩ := ih.place pre x post' hxs
          exact ⟨before, more, hbefore, hmore.trans (List.sublist_append_left post' [y]), hplace⟩
        · exact ⟨_, [], ih.sublist, List.Sublist.slnil, Or.inr ⟨by simp, hlt⟩⟩

end Kept

/-! ## The loop on words -/

/-- The sizes as natural numbers. -/
def sizes (size : α → UInt64) (x : α) : Nat :=
  (size x).toNat

structure Packed (α : Type) where
  items : List α
  total : UInt64
  dropped : Nat

def Packed.empty : Packed α :=
  { items := [], total := 0, dropped := 0 }

def packStep (size : α → UInt64) (capacity : UInt64) (s : Packed α) (x : α) : Option (Packed α) :=
  (checked64 (s.total.toNat + (size x).toNat)).map fun total =>
    if total ≤ capacity then
      { s with items := s.items ++ [x], total := total }
    else
      { s with dropped := s.dropped + 1 }

def pack (size : α → UInt64) (capacity : UInt64) (xs : List α) : Option (Packed α) :=
  xs.foldlM (packStep size capacity) .empty

/-- The loop keeps the same items, holds their sum and counts the others. -/
structure Packed.Agrees (s : Packed α) (size : α → UInt64) (capacity : UInt64) (xs : List α) : Prop where
  items : s.items = kept (sizes size) capacity.toNat xs
  total : s.total.toNat = load (sizes size) s.items
  dropped : s.items.length + s.dropped = xs.length

/-- No sum that is compared overflows. -/
def SumsFit (size : α → UInt64) (capacity : Nat) : List α → Prop :=
  ForallSplits fun pre x =>
    load (sizes size) (kept (sizes size) capacity pre) + (size x).toNat < 2 ^ 64

section Pack

variable {size : α → UInt64} {capacity : UInt64} {xs : List α} {x : α}

theorem Packed.Agrees.isPacking {s : Packed α} (h : s.Agrees size capacity xs) :
    IsPacking (sizes size) capacity.toNat xs s.items := by
  rw [h.items]
  exact isPacking_kept

theorem Packed.Agrees.total_le {s : Packed α} (h : s.Agrees size capacity xs) :
    s.total.toNat ≤ capacity.toNat :=
  h.total.trans_le h.isPacking.load_le

theorem pack_concat :
    pack size capacity (xs ++ [x]) =
      (pack size capacity xs).bind fun s => packStep size capacity s x := by
  rw [pack, List.foldlM_append]
  simp only [List.foldlM_cons, List.foldlM_nil, bind_pure]
  rfl

/-- A step from a state that agrees fails when the sum overflows, and agrees again otherwise. -/
theorem packStep_spec {s : Packed α} (h : s.Agrees size capacity xs) :
    (packStep size capacity s x = none ∧
      2 ^ 64 ≤ load (sizes size) (kept (sizes size) capacity.toNat xs) + (size x).toNat) ∨
    ∃ s', packStep size capacity s x = some s' ∧ s'.Agrees size capacity (xs ++ [x]) ∧
      load (sizes size) (kept (sizes size) capacity.toNat xs) + (size x).toNat < 2 ^ 64 := by
  obtain ⟨hitems, htotal, hdropped⟩ := h
  rw [← hitems, ← htotal, packStep]
  cases hsum : checked64 (s.total.toNat + (size x).toNat) with
  | none =>
      exact Or.inl ⟨rfl, checked64_eq_none.1 hsum⟩
  | some total =>
      have htotal' : total.toNat = s.total.toNat + (size x).toNat := checked64_eq_some.1 hsum
      refine Or.inr ⟨_, rfl, ?_, htotal' ▸ total.toNat_lt⟩
      rw [htotal] at htotal'
      have hfits : total ≤ capacity ↔ load (sizes size) s.items + sizes size x ≤ capacity.toNat := by
        rw [UInt64.le_iff_toNat_le, htotal']
        rfl
      by_cases hle : total ≤ capacity
      · simp only [if_pos hle]
        refine ⟨?_, ?_, ?_⟩
        · rw [hfits, hitems] at hle
          rw [kept_concat_of_le hle, hitems]
        · rw [htotal', load_concat]
          rfl
        · simp only [List.length_append, List.length_singleton]
          omega
      · simp only [if_neg hle]
        refine ⟨?_, htotal, ?_⟩
        · rw [hfits, Nat.not_le, hitems] at hle
          rw [kept_concat_of_lt hle, hitems]
        · simp only [List.length_append, List.length_singleton]
          omega

/-- The loop completes exactly when no sum overflows, and agrees then. -/
theorem pack_eq (size : α → UInt64) (capacity : UInt64) (xs : List α) :
    (pack size capacity xs = none ∧ ¬ SumsFit size capacity.toNat xs) ∨
    ∃ s, pack size capacity xs = some s ∧ s.Agrees size capacity xs ∧ SumsFit size capacity.toNat xs := by
  induction xs using List.reverseRecOn with
  | nil =>
      exact Or.inr ⟨.empty, rfl, ⟨rfl, rfl, rfl⟩, forallSplits_nil⟩
  | append_singleton xs x ih =>
      rw [pack_concat, SumsFit, forallSplits_concat]
      rcases ih with ⟨hnone, hoverflow⟩ | ⟨s, hsome, hagrees, hfit⟩
      · exact Or.inl ⟨by rw [hnone]; rfl, fun h => hoverflow h.1⟩
      · rw [hsome, Option.bind_some]
        rcases packStep_spec (x := x) hagrees with ⟨hstep, hge⟩ | ⟨s', hstep, hagrees', hlt⟩
        · exact Or.inl ⟨hstep, fun h => absurd h.2 (Nat.not_lt.2 hge)⟩
        · exact Or.inr ⟨s', hstep, hagrees', hfit, hlt⟩

/-- What holds of every state that agrees is had exactly while no sum overflows. -/
theorem exists_map_pack_iff {β : Type} {f : Packed α → β} {q : β → Prop}
    (h : ∀ s : Packed α, s.Agrees size capacity xs → q (f s)) :
    (∃ b, (pack size capacity xs).map f = some b ∧ q b) ↔ SumsFit size capacity.toNat xs := by
  rcases pack_eq size capacity xs with ⟨hnone, hoverflow⟩ | ⟨s, hsome, hagrees, hfit⟩
  · rw [hnone]
    constructor
    · rintro ⟨b, hb, _⟩
      cases hb
    · exact fun hfit => absurd hfit hoverflow
  · rw [hsome]
    exact iff_of_true ⟨f s, rfl, h s hagrees⟩ hfit

end Pack

end Lib
end Aivcs
