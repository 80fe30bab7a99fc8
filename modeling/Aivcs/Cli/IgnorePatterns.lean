import Aivcs.Cli.Walk
import Aivcs.Lib.Wildcard

/-!
# Cli.IgnorePatterns — what an ignore pattern matches

`wildcard_match` goes through the pattern and keeps one row of a dynamic programme: for every prefix of the
value, whether the tokens seen so far match it.

* `Stands` — the text a token stands for;
* `IsRow` — what a row says, kept by every token (`IsRow.star`, `IsRow.char`);
* `wildcardMatch_iff` — the pattern matches exactly its expansions;
* `shouldIgnore_iff` — the rule for the entries of a walk.
-/

namespace Aivcs
namespace Cli

open Aivcs.Lib
open Aivcs.Lib.Wildcard

/-- The pieces of text a token can be replaced by. -/
inductive Stands : Char → List Char → Prop
  | any (piece : List Char) : Stands '*' piece
  | one (c : Char) : Stands '?' [c]
  | itself {c : Char} (hstar : c ≠ '*') (hone : c ≠ '?') : Stands c [c]

theorem stands_iff {token : Char} (hstar : token ≠ '*') (piece : List Char) :
    Stands token piece ↔ ∃ c, piece = [c] ∧ (token = '?' ∨ token = c) := by
  constructor
  · intro h
    cases h with
    | any =>
        exact absurd rfl hstar
    | one c =>
        exact ⟨c, rfl, .inl rfl⟩
    | itself _ _ =>
        exact ⟨token, rfl, .inr rfl⟩
  · rintro ⟨c, rfl, rfl | rfl⟩
    · exact .one c
    · by_cases hone : token = '?'
      · subst hone
        exact .one '?'
      · exact .itself hstar hone

/-! ## Entries of a row -/

/-- After a `*` an entry is true if it or one before it was. -/
theorem starRow_getElem? (acc : Bool) (previous : List Bool) (i : ℕ) :
    (starRow acc previous)[i]? = some true ↔
      i < previous.length ∧ (acc = true ∨ ∃ j ≤ i, previous[j]? = some true) := by
  induction previous generalizing acc i with
  | nil =>
      simp [starRow]
  | cons p previous ih =>
      cases i with
      | zero =>
          simp [starRow, or_comm]
      | succ i =>
          have hfirst : (∃ j ≤ i + 1, (p :: previous)[j]? = some true) ↔
              p = true ∨ ∃ j ≤ i, previous[j]? = some true := by
            constructor
            · rintro ⟨_ | j, hj, h⟩
              · exact .inl (Option.some.inj h)
              · exact .inr ⟨j, Nat.le_of_succ_le_succ hj, h⟩
            · rintro (rfl | ⟨j, hj, h⟩)
              · exact ⟨0, Nat.zero_le _, rfl⟩
              · exact ⟨j + 1, Nat.succ_le_succ hj, h⟩
          rw [starRow, List.getElem?_cons_succ, ih, hfirst, Bool.or_eq_true, List.length_cons,
            Nat.succ_lt_succ_iff, or_assoc, or_left_comm]

theorem length_starRow (acc : Bool) (previous : List Bool) :
    (starRow acc previous).length = previous.length := by
  induction previous generalizing acc with
  | nil =>
      rfl
  | cons p previous ih =>
      rw [starRow, List.length_cons, List.length_cons, ih]

/-- After any other token an entry is true if the one before was and the character agrees. -/
theorem charRow_getElem?_succ (token : Char) {value : List Char} {previous : List Bool} {i : ℕ} {c : Char}
    (hc : value[i]? = some c) :
    (charRow token value previous)[i + 1]? = some true ↔
      previous[i]? = some true ∧ (token = '?' ∨ token = c) := by
  rw [charRow, List.getElem?_cons_succ, List.getElem?_zipWith, hc]
  cases previous[i]? with
  | none =>
      simp
  | some p =>
      simp

/-! ## Rows -/

/-- The row says of every prefix of the value whether it is an expansion of the pattern. -/
structure IsRow (pattern value : List Char) (row : List Bool) : Prop where
  length_eq : row.length = value.length + 1
  true_iff : ∀ i ≤ value.length, row[i]? = some true ↔ Expands Stands pattern (value.take i)

section Rows

variable {pattern value : List Char} {row : List Bool}

/-- The empty pattern has matched the empty prefix. -/
theorem isRow_init (value : List Char) : IsRow [] value (true :: List.replicate value.length false) := by
  refine ⟨by simp, fun i hi => ?_⟩
  rw [expands_nil]
  cases i with
  | zero =>
      simp
  | succ i =>
      have hne : value.take (i + 1) ≠ [] := by
        rw [Ne, List.take_eq_nil_iff, not_or]
        exact ⟨Nat.succ_ne_zero i, List.ne_nil_of_length_pos (Nat.lt_of_lt_of_le i.succ_pos hi)⟩
      simp [hne, List.getElem?_replicate]

theorem IsRow.star (h : IsRow pattern value row) : IsRow (pattern ++ ['*']) value (starRow false row) := by
  refine ⟨(length_starRow false row).trans h.length_eq, fun i hi => ?_⟩
  rw [starRow_getElem?, expands_concat_any Stands.any, h.length_eq]
  constructor
  · rintro ⟨-, hacc | ⟨j, hj, hrow⟩⟩
    · cases hacc
    · exact ⟨j, hj, (h.true_iff j (hj.trans hi)).mp hrow⟩
  · rintro ⟨j, hj, hexp⟩
    exact ⟨Nat.lt_succ_of_le hi, .inr ⟨j, hj, (h.true_iff j (hj.trans hi)).mpr hexp⟩⟩

theorem IsRow.char (h : IsRow pattern value row) {token : Char} (htoken : token ≠ '*') :
    IsRow (pattern ++ [token]) value (charRow token value row) := by
  refine ⟨?_, fun i hi => ?_⟩
  · rw [charRow, List.length_cons, List.length_zipWith, h.length_eq, Nat.min_eq_right (Nat.le_succ _)]
  cases i with
  | zero =>
      -- The first column: a token for one character does not match the empty prefix.
      have hnot : ¬ Expands Stands (pattern ++ [token]) [] := by
        apply not_expands_concat_nil
        intro piece hpiece
        rcases (stands_iff htoken piece).mp hpiece with ⟨c, rfl, -⟩
        exact List.cons_ne_nil c []
      simp [charRow, hnot]
  | succ i =>
      have hc : value[i]? = some value[i] := List.getElem?_eq_getElem hi
      rw [charRow_getElem?_succ token hc, expands_concat_one (stands_iff htoken) hc,
        h.true_iff i (Nat.le_of_succ_le hi)]

/-- Every token of the pattern keeps what the row says. -/
theorem IsRow.foldl (rest : List Char) (h : IsRow pattern value row) :
    IsRow (pattern ++ rest) value
      (rest.foldl (fun previous token =>
        if token = '*' then starRow false previous else charRow token value previous) row) := by
  induction rest generalizing pattern row with
  | nil =>
      rwa [List.append_nil]
  | cons token rest ih =>
      rw [List.foldl_cons, List.append_cons]
      by_cases htoken : token = '*'
      · rw [if_pos htoken, htoken]
        exact ih h.star
      · rw [if_neg htoken]
        exact ih (h.char htoken)

end Rows

theorem wildcardMatch_eq_true_iff (pattern value : List Char) :
    wildcardMatch pattern value = true ↔ Expands Stands pattern value := by
  have hrow := (isRow_init value).foldl pattern
  have hlast := hrow.true_iff value.length le_rfl
  rw [List.take_length, List.nil_append] at hlast
  rw [wildcardMatch, decide_eq_true_eq, List.getLast?_eq_getElem?, hrow.length_eq]
  exact hlast

/-- A pattern matches exactly the texts that come of it by putting any text for each `*` and one character
for each `?`. -/
theorem wildcardMatch_iff (pattern value : String) :
    wildcardMatch pattern.toList value.toList = true ↔
      Expands Stands pattern.toList value.toList :=
  wildcardMatch_eq_true_iff pattern.toList value.toList

example : wildcardMatch "generated/**".toList "generated/cache/file.bin".toList = true ∧
    wildcardMatch "*.pem".toList "README.md".toList = false ∧
    wildcardMatch "a?**c".toList "abc".toList = true := by
  decide +kernel

/-! ## Entries of a walk -/

/-- Wildcards among them, characters stand for themselves. -/
theorem expands_self (text : List Char) : Expands Stands text text := by
  have hself : ∀ c, Stands c [c] := by
    intro c
    by_cases hstar : c = '*'
    · subst hstar
      exact .any ['*']
    · exact (stands_iff hstar [c]).mpr ⟨c, rfl, .inr rfl⟩
  refine ⟨text.map fun c => [c], ?_, ?_⟩
  · exact List.forall₂_map_right_iff.mpr (List.forall₂_same.mpr fun c _ => hself c)
  · induction text with
    | nil =>
        rfl
    | cons c text ih =>
        rw [List.map_cons, List.flatten_cons, ih, List.singleton_append]

/-- An entry is left out when its name or its path is an expansion of a pattern, or its path lies below the
pattern; that the source also compares name and path with the pattern itself adds nothing. -/
theorem shouldIgnore_iff (pats : List (List Char)) (fileName relPath : String) :
    shouldIgnore pats fileName relPath = true ↔
      ∃ pat ∈ pats, Expands Stands pat fileName.toList ∨ Expands Stands pat relPath.toList ∨
        pat ++ ['/'] <+: relPath.toList := by
  have hself : ∀ {pat text : List Char}, text = pat → Expands Stands pat text := by
    rintro _ text rfl
    exact expands_self text
  simp only [shouldIgnore, List.any_eq_true, Bool.or_eq_true, decide_eq_true_eq,
    wildcardMatch_eq_true_iff, List.isPrefixOf_iff_prefix]
  refine exists_congr fun pat => and_congr_right fun _ => ?_
  constructor
  · rintro ((((hname | hpath) | hbelow) | hname) | hpath)
    · exact .inl (hself hname)
    · exact .inr (.inl (hself hpath))
    · exact .inr (.inr hbelow)
    · exact .inl hname
    · exact .inr (.inl hpath)
  · rintro (hname | hpath | hbelow)
    · exact .inl (.inr hname)
    · exact .inr hpath
    · exact .inl (.inl (.inr hbelow))

end Cli
end Aivcs
