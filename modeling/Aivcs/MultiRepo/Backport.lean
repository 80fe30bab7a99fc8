import Mathlib.Data.String.Basic
import Aivcs.Lib.Wildcard

/-!
# MultiRepo.Backport — which branches a backport policy applies to

`glob_match` of `multi_repo/backport.rs` keeps a cursor in the pattern and one in the value and goes back to
the last `*` when the characters differ.  It compares the characters before it looks for a `*`, so a `*` of
the pattern that meets a `*` of the value is taken for an ordinary character.

* `globMatch_iff` — the loop decides `Wildcard.Meets`, for every pattern and value;
* `globMatch_spec_iff` — when that is the documented relation.
-/

namespace Aivcs
namespace MultiRepo

open Aivcs.Lib

/-- The loop of `glob_match`.  The cursors are what is left of the pattern and of the value; `star` holds
what follows the last `*` of the pattern and what its text is followed by. -/
def globLoop (pattern value : List Char) (star : Option (List Char × List Char)) : Bool :=
  match value with
  -- trailing `*`s stand for nothing
  | [] => pattern.all fun c => c = '*'
  | v :: rest =>
      if pattern.head? = some v then
        globLoop pattern.tail rest star
      else if pattern.head? = some '*' then
        globLoop pattern.tail (v :: rest) (some (pattern.tail, v :: rest))
      else
        match star with
        | none => false
        -- does not occur: the text of a `*` never ends behind the cursor
        | some (_, []) => false
        | some (after, c :: text) => if c = '/' then false else globLoop after text (some (after, text))
  termination_by (max ((star.map fun s => s.2.length).getD 0) value.length,
    pattern.length + value.length)
  decreasing_by
  · refine Prod.Lex.right' _ ?_ ?_
    · rw [List.length_cons]
      omega
    · rw [List.length_tail, List.length_cons]
      omega
  · have hpattern : pattern ≠ [] := by
      rintro rfl
      contradiction
    have hpos : 0 < pattern.length := List.length_pos_of_ne_nil hpattern
    refine Prod.Lex.right' _ ?_ ?_
    · rw [Option.map_some, Option.getD_some, Nat.max_self]
      exact le_max_right _ _
    · rw [List.length_tail]
      omega
  · refine Prod.Lex.left _ _ ?_
    simp only [Option.map_some, Option.getD_some, List.length_cons]
    omega

def globMatch (pattern value : String) : Bool :=
  globLoop pattern.toList value.toList none

/-- The part of a policy that decides which branches it applies to. -/
structure BackportPolicy where
  sourceBranch : String

def BackportPolicy.matchesSourceBranch (policy : BackportPolicy) (branch : String) : Bool :=
  globMatch policy.sourceBranch branch

/-! ## What the loop decides -/

section Loop

open Wildcard

variable {pattern value : List Char} {star : Option (List Char × List Char)}

/-- Since the last `*` the pattern and the value have advanced together. -/
def Advanced (pattern value : List Char) : Option (List Char × List Char) → Prop
  | none => True
  | some (after, text) => ∃ common, after = common ++ pattern ∧ text = common ++ value

/-- The value is matched with a longer text for the last `*`. -/
def MatchesLater : Option (List Char × List Char) → Prop
  | some (after, c :: text) => c ≠ '/' ∧ MeetsAfter '*' '/' after text
  | _ => False

/-- A longer text for the last `*` is matched from the cursors on too. -/
theorem MatchesLater.meetsAfter (hstar : Advanced pattern value star) (h : MatchesLater star) :
    MeetsAfter '*' '/' pattern value := by
  match star, hstar, h with
  | some (after, c :: text), ⟨common, hafter, htext⟩, ⟨hc, skipped, rest, hrest, hskipped, hmeets⟩ =>
      rw [hafter] at hmeets
      refine hmeets.shift (by decide) common (c :: skipped) ?_ ?_
      · rw [← htext, hrest, List.cons_append]
      · rw [List.mem_cons, not_or]
        exact ⟨hc.symm, hskipped⟩

theorem meetsAfter_iff_matchesLater {after text : List Char} : MeetsAfter '*' '/' after text ↔
    Meets '*' '/' after text ∨ MatchesLater (some (after, text)) := by
  cases text with
  | nil =>
      rw [meetsAfter_nil]
      exact (or_iff_left fun h => h).symm
  | cons c text =>
      exact meetsAfter_cons

theorem globLoop_iff (hstar : Advanced pattern value star) :
    globLoop pattern value star = true ↔ Meets '*' '/' pattern value ∨ MatchesLater star := by
  fun_induction globLoop pattern value star with
  | case1 pattern star =>
      -- at the end of the value a longer text for the last `*` leaves nothing to match
      have hlater (h : MatchesLater star) : Meets '*' '/' pattern [] :=
        meetsAfter_nil.1 (h.meetsAfter hstar)
      rw [or_iff_left_of_imp hlater, meets_nil_right_iff]
      simp
  | case2 pattern star v rest hhead ih =>
      obtain ⟨pattern, rfl⟩ := List.head?_eq_some_iff.1 hhead
      rw [List.tail_cons] at ih ⊢
      have hadvanced : Advanced pattern rest star := by
        match star, hstar with
        | none, _ =>
            trivial
        | some (after, text), ⟨common, hafter, htext⟩ =>
            exact ⟨common ++ [v], by simp [hafter], by simp [htext]⟩
      rw [ih hadvanced, meets_same_iff]
  | case3 pattern star v rest hne hhead ih =>
      obtain ⟨pattern, rfl⟩ := List.head?_eq_some_iff.1 hhead
      rw [List.tail_cons] at ih ⊢
      have hv : v ≠ '*' := by
        rintro rfl
        exact hne rfl
      -- what the last `*` could still do, this one can do as well
      have hlater (h : MatchesLater star) : MeetsAfter '*' '/' pattern (v :: rest) :=
        (h.meetsAfter hstar).of_star (by decide)
      rw [ih ⟨[], rfl, rfl⟩, ← meetsAfter_iff_matchesLater, meets_star_iff (by simpa using hv),
        or_iff_left_of_imp hlater]
  | case4 pattern v rest hne hhead =>
      simp [MatchesLater, not_meets_of_head?_ne hne hhead]
  | case5 pattern v rest hne hhead after =>
      obtain ⟨common, _, htext⟩ := hstar
      simp at htext
  | case6 pattern v rest hne hhead after text =>
      simp [MatchesLater, not_meets_of_head?_ne hne hhead]
  | case7 pattern v rest hne hhead after c text hc ih =>
      rw [ih ⟨[], rfl, rfl⟩, ← meetsAfter_iff_matchesLater]
      simp [MatchesLater, not_meets_of_head?_ne hne hhead, hc]

end Loop

theorem globMatch_iff (pattern value : String) :
    globMatch pattern value = true ↔ Wildcard.Meets '*' '/' pattern.toList value.toList := by
  have hstar : Advanced pattern.toList value.toList none := trivial
  rw [globMatch, globLoop_iff hstar]
  exact or_iff_left fun h => h

/-- `glob_match` is the documented relation exactly on the values that match, if at all, also when a `*` of
the pattern that meets a `*` of the value has to stand for just that character. -/
theorem globMatch_spec_iff (pattern value : String) :
    (globMatch pattern value = true ↔ Wildcard.Matches '*' '/' pattern.toList value.toList) ↔
      (Wildcard.Matches '*' '/' pattern.toList value.toList →
        Wildcard.Meets '*' '/' pattern.toList value.toList) := by
  rw [globMatch_iff]
  constructor
  · intro h
    exact h.2
  · intro h
    exact ⟨Wildcard.Meets.matches (by decide), h⟩

/-- The first `*` stands for `*b`. -/
theorem globMatch_misses_starred_value : ¬ ∀ pattern value : String,
    globMatch pattern value = true ↔ Wildcard.Matches '*' '/' pattern.toList value.toList := by
  intro h
  have hmatches : Wildcard.Matches '*' '/' "*a".toList "*ba".toList :=
    .wild ['*', 'b'] (by decide) (.letter (by decide) .nil)
  have hmeets := (globMatch_iff "*a" "*ba").1 ((h "*a" "*ba").2 hmatches)
  have hrest : Wildcard.Meets '*' '/' ['a'] ['b', 'a'] := Wildcard.meets_same_iff.1 hmeets
  exact Wildcard.not_meets_of_head?_ne (by decide) (by decide) hrest

/-- A policy applies to the branches its pattern describes, unless both have a `*`. -/
theorem BackportPolicy.matchesSourceBranch_iff (policy : BackportPolicy) {branch : String}
    (h : '*' ∉ policy.sourceBranch.toList ∨ '*' ∉ branch.toList) :
    policy.matchesSourceBranch branch = true ↔
      Wildcard.Matches '*' '/' policy.sourceBranch.toList branch.toList := by
  rw [matchesSourceBranch, globMatch_iff]
  refine ⟨Wildcard.Meets.matches (by decide), fun hmatches => ?_⟩
  rcases h with hpattern | hbranch
  · exact hmatches.meets_of_literal hpattern
  · exact hmatches.meets hbranch

end MultiRepo
end Aivcs
