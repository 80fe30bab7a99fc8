import Mathlib.Data.Nat.Count
import Mathlib.Data.Finset.Card

/-!
# Pairing — openings answered by later closings

In a list of events some open something under a key and some close something under a key.  The list is
`Paired` if every opening can be given a later closing of its own with the same key.

* `Paired.tail` — what is later stays later;
* `Paired.countP_le` — a pairing needs as many closings as openings;
* `paired_iff` — and if that is so for every key from every point of the list on, there is one.
-/

namespace Aivcs
namespace Lib

section Pairing

variable {α κ : Type} (opens closes : α → Bool) (key : α → κ)

/-- Every opening event has a later closing event of its own with the same key. -/
def Paired (l : List α) : Prop :=
  ∃ f : ℕ → ℕ,
    (∀ i e, l[i]? = some e → opens e = true →
      i < f i ∧ ∃ e', l[f i]? = some e' ∧ closes e' = true ∧ key e' = key e) ∧
    Set.InjOn f {i | ∃ e, l[i]? = some e ∧ opens e = true}

/-- The places of the list with `p`. -/
def places (p : α → Bool) (l : List α) : Finset ℕ :=
  (Finset.range l.length).filter fun i => (l[i]?.any p) = true

theorem mem_places {p : α → Bool} {l : List α} {i : ℕ} :
    i ∈ places p l ↔ ∃ e, l[i]? = some e ∧ p e = true := by
  rw [places, Finset.mem_filter, Finset.mem_range, Option.any_eq_true]
  constructor
  · rintro ⟨-, h⟩
    exact h
  · rintro ⟨e, he, hp⟩
    exact ⟨(List.getElem?_eq_some_iff.mp he).1, e, he, hp⟩

theorem card_places (p : α → Bool) (l : List α) : (places p l).card = l.countP p := by
  have hcount : Nat.count (fun i => l[i]?.any p = true) l.length = l.countP p := by
    induction l with
    | nil =>
        rfl
    | cons e l ih =>
        rw [List.length_cons, Nat.count_succ', List.countP_cons]
        simp only [List.getElem?_cons_succ, List.getElem?_cons_zero, Option.any_some, ih]
  rw [places, ← Nat.count_eq_card_filter_range, hcount]

variable {opens closes key} {l : List α} {e : α}

theorem Paired.tail (h : Paired opens closes key (e :: l)) : Paired opens closes key l := by
  rcases h with ⟨f, hf, hinj⟩
  refine ⟨fun i => f (i + 1) - 1, ?_, ?_⟩
  · intro i a ha hopen
    rcases hf (i + 1) a ha hopen with ⟨hlt, b, hb, hclose⟩
    have hsucc : f (i + 1) = f (i + 1) - 1 + 1 := by omega
    rw [hsucc, List.getElem?_cons_succ] at hb
    exact ⟨by dsimp only; omega, b, hb, hclose⟩
  · rintro i ⟨a, ha, hopen⟩ j ⟨b, hb, hopen'⟩ heq
    have hi := (hf (i + 1) a ha hopen).1
    have hj := (hf (j + 1) b hb hopen').1
    have hsame : f (i + 1) = f (j + 1) := by
      dsimp only at heq
      omega
    exact Nat.succ.inj (hinj ⟨a, ha, hopen⟩ ⟨b, hb, hopen'⟩ hsame)

variable [DecidableEq κ]

theorem Paired.countP_le (h : Paired opens closes key l) (k : κ) :
    l.countP (fun e => opens e && key e = k) ≤ l.countP fun e => closes e && key e = k := by
  rcases h with ⟨f, hf, hinj⟩
  rw [← card_places, ← card_places]
  refine Finset.card_le_card_of_injOn f ?_ ?_
  · intro i hi
    rcases mem_places.mp hi with ⟨a, ha, hopen⟩
    rw [Bool.and_eq_true, decide_eq_true_eq] at hopen
    rcases hf i a ha hopen.1 with ⟨-, b, hb, hclose, hkey⟩
    exact mem_places.mpr ⟨b, hb, by rw [hclose, hkey, hopen.2]; simp⟩
  · refine hinj.mono ?_
    intro i hi
    rcases mem_places.mp hi with ⟨a, ha, hopen⟩
    rw [Bool.and_eq_true] at hopen
    exact ⟨a, ha, hopen.1⟩

/-- With more closings than openings of a key, some closing answers no opening at all. -/
theorem exists_unused {f : ℕ → ℕ} {k : κ}
    (hf : ∀ i a, l[i]? = some a → opens a = true →
      i < f i ∧ ∃ b, l[f i]? = some b ∧ closes b = true ∧ key b = key a)
    (h : l.countP (fun a => opens a && key a = k) < l.countP fun a => closes a && key a = k) :
    ∃ j b, l[j]? = some b ∧ closes b = true ∧ key b = k ∧
      ∀ i a, l[i]? = some a → opens a = true → f i ≠ j := by
  have hcard : ((places (fun a => opens a && key a = k) l).image f).card <
      (places (fun a => closes a && key a = k) l).card := by
    refine lt_of_le_of_lt Finset.card_image_le ?_
    rw [card_places, card_places]
    exact h
  rcases Finset.exists_mem_notMem_of_card_lt_card hcard with ⟨j, hj, hfree⟩
  rcases mem_places.mp hj with ⟨b, hb, hclose⟩
  rw [Bool.and_eq_true, decide_eq_true_eq] at hclose
  refine ⟨j, b, hb, hclose.1, hclose.2, ?_⟩
  -- An opening answered by it would have the same key.
  rintro i a ha hopen rfl
  rcases hf i a ha hopen with ⟨-, b', hb', -, hkey⟩
  obtain rfl : b' = b := Option.some.inj (hb'.symm.trans hb)
  refine hfree (Finset.mem_image.mpr ⟨i, mem_places.mpr ⟨a, ha, ?_⟩, rfl⟩)
  rw [hopen, ← hkey, hclose.2]
  simp

/-- A pairing of the rest and a closing that it leaves free answer an opening in front. -/
theorem Paired.cons (hl : Paired opens closes key l)
    (h : opens e = true → l.countP (fun a => opens a && key a = key e) <
      l.countP fun a => closes a && key a = key e) :
    Paired opens closes key (e :: l) := by
  rcases hl with ⟨f, hf, hinj⟩
  obtain ⟨j, hj⟩ : ∃ j, opens e = true → (∃ b, l[j]? = some b ∧ closes b = true ∧ key b = key e) ∧
      ∀ i a, l[i]? = some a → opens a = true → f i ≠ j := by
    by_cases hopen : opens e = true
    · rcases exists_unused hf (h hopen) with ⟨j, b, hb, hclose, hkey, hfree⟩
      exact ⟨j, fun _ => ⟨⟨b, hb, hclose, hkey⟩, hfree⟩⟩
    · exact ⟨0, fun hopen' => absurd hopen' hopen⟩
  refine ⟨fun | 0 => j + 1 | i + 1 => f i + 1, ?_, ?_⟩
  · rintro (_ | i) a ha hopen
    · obtain rfl : e = a := Option.some.inj ha
      exact ⟨Nat.succ_pos j, (hj hopen).1⟩
    · rcases hf i a ha hopen with ⟨hlt, hanswer⟩
      exact ⟨Nat.succ_lt_succ hlt, hanswer⟩
  · rintro (_ | i) ⟨a, ha, hopen⟩ (_ | i') ⟨a', ha', hopen'⟩ heq
    · rfl
    · obtain rfl : e = a := Option.some.inj ha
      exact absurd (Nat.succ.inj heq).symm ((hj hopen).2 i' a' ha' hopen')
    · obtain rfl : e = a' := Option.some.inj ha'
      exact absurd (Nat.succ.inj heq) ((hj hopen').2 i a ha hopen)
    · rw [hinj ⟨a, ha, hopen⟩ ⟨a', ha', hopen'⟩ (Nat.succ.inj heq)]

/-- The openings can be paired if and only if, from every point of the list on, no key is opened more often
than it is closed. -/
theorem paired_iff (hdisjoint : ∀ e, opens e = true → closes e = false) :
    Paired opens closes key l ↔ ∀ n k,
      (l.drop n).countP (fun e => opens e && key e = k) ≤
        (l.drop n).countP fun e => closes e && key e = k := by
  induction l with
  | nil =>
      refine ⟨fun _ n k => by simp, fun _ => ⟨id, ?_, ?_⟩⟩
      · intro i e he
        cases he
      · rintro i ⟨e, he, -⟩
        cases he
  | cons e l ih =>
      constructor
      · intro h n k
        cases n with
        | zero =>
            exact h.countP_le k
        | succ n =>
            exact ih.mp h.tail n k
      · intro h
        refine (ih.mpr fun n k => h (n + 1) k).cons fun hopen => ?_
        -- The opening in front is counted, and it is no closing.
        have hwhole := h 0 (key e)
        simp only [List.drop_zero, List.countP_cons, hopen, hdisjoint e hopen] at hwhole
        exact Nat.lt_of_succ_le (by simpa using hwhole)

end Pairing

end Lib
end Aivcs
