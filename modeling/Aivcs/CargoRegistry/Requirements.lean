import Aivcs.CargoRegistry.Index

/-!
# CargoRegistry.Requirements — what `normalize_req` does to a requirement

A requirement is read as its comma-separated parts without the whitespace around them (`requirementParts`).
`normalize_req` looks at the first character of each part only.

* `requirementParts_normalizeReq` — the parts of a normalised requirement, in order and one for one;
* `normalizeReq_idempotent` — normalising again changes nothing;
* `touchesOnlyBare_iff` — the rule "a caret for bare versions and for nothing else" is met exactly when no
  part that begins with a digit has a wildcard.
-/

namespace Aivcs
namespace CargoRegistry

open Aivcs.Lib

/-- The parts of a requirement, trimmed. -/
def requirementParts (req : String) : List (List Char) :=
  (req.toList.splitOn ',').map (trimBoth isWhitespace)

def BeginsWithDigit (part : List Char) : Prop :=
  part.head?.any Char.isDigit = true

instance (part : List Char) : Decidable (BeginsWithDigit part) :=
  inferInstanceAs (Decidable (_ = true))

/-- A version without an operator and without a wildcard. -/
def IsBareVersion (part : List Char) : Prop :=
  BeginsWithDigit part ∧ '*' ∉ part

instance (part : List Char) : Decidable (IsBareVersion part) :=
  inferInstanceAs (Decidable (_ ∧ _))

/-- The documented rule for one part: a caret before a bare version. -/
def caretBare (part : List Char) : List Char :=
  if IsBareVersion part then '^' :: part else part

/-- The rule for a requirement: its parts one for one, and nothing to do a second time. -/
structure TouchesOnlyBare (req : String) : Prop where
  parts_eq : requirementParts (normalizeReq req) = (requirementParts req).map caretBare
  idempotent : normalizeReq (normalizeReq req) = normalizeReq req

/-! ## One part -/

/-- What the code does to a trimmed part. -/
def caretDigit (part : List Char) : List Char :=
  if BeginsWithDigit part then '^' :: part else part

theorem normalizePart_eq (part : List Char) :
    normalizePart part = caretDigit (trimBoth isWhitespace part) := by
  unfold normalizePart
  cases trimBoth isWhitespace part with
  | nil =>
      rfl
  | cons c t =>
      rfl

/-- A part with a caret begins with no digit. -/
theorem caretDigit_caretDigit (part : List Char) : caretDigit (caretDigit part) = caretDigit part := by
  by_cases h : BeginsWithDigit part
  · have hcaret : ¬ BeginsWithDigit ('^' :: part) := by
      simp [BeginsWithDigit]
    have hpart : caretDigit part = '^' :: part := if_pos h
    rw [hpart]
    exact if_neg hcaret
  · have hsame : caretDigit part = part := if_neg h
    rw [hsame, hsame]

theorem Trimmed.caretDigit {part : List Char} (h : Trimmed isWhitespace part) :
    Trimmed isWhitespace (caretDigit part) := by
  unfold CargoRegistry.caretDigit
  split
  · exact h.cons (by decide)
  · exact h

theorem caretDigit_eq_caretBare_iff (part : List Char) :
    caretDigit part = caretBare part ↔ (BeginsWithDigit part → '*' ∉ part) := by
  unfold caretDigit caretBare IsBareVersion
  by_cases hdigit : BeginsWithDigit part
  · by_cases hstar : '*' ∈ part
    · have hne : '^' :: part ≠ part := fun heq => by
        simpa using congrArg List.length heq
      simp [hdigit, hstar, hne]
    · simp [hdigit, hstar]
  · simp [hdigit]

/-! ## The whole requirement -/

/-- Pieces joined by `", "` are the pieces joined by commas, with a space before each but the first. -/
theorem intercalate_comma_space (piece : List Char) (pieces : List (List Char)) :
    [',', ' '].intercalate (piece :: pieces) =
      [','].intercalate (piece :: pieces.map (fun q => ' ' :: q)) := by
  induction pieces generalizing piece with
  | nil =>
      rfl
  | cons q pieces ih =>
      have hspace : ∀ rest, [','].intercalate ((' ' :: q) :: rest) = ' ' :: [','].intercalate (q :: rest) := by
        intro rest
        cases rest <;> simp [List.intercalate_cons_cons]
      rw [List.intercalate_cons_cons, ih q, List.map_cons, List.intercalate_cons_cons, hspace]
      simp

/-- Splitting at commas and trimming undoes the join. -/
theorem requirementParts_join {pieces : List (List Char)} (hne : pieces ≠ [])
    (hcomma : ∀ piece ∈ pieces, ',' ∉ piece) :
    requirementParts (String.ofList ([',', ' '].intercalate pieces)) =
      pieces.map (trimBoth isWhitespace) := by
  cases pieces with
  | nil =>
      exact absurd rfl hne
  | cons piece pieces =>
      rw [List.forall_mem_cons] at hcomma
      have hspaced : ∀ q ∈ piece :: pieces.map (fun q => ' ' :: q), ',' ∉ q := by
        rw [List.forall_mem_cons]
        refine ⟨hcomma.1, ?_⟩
        intro spaced hspaced
        rcases List.mem_map.mp hspaced with ⟨q, hq, rfl⟩
        rw [List.mem_cons, not_or]
        exact ⟨by decide, hcomma.2 q hq⟩
      rw [requirementParts, String.toList_ofList, intercalate_comma_space,
        List.splitOn_intercalate ',' hspaced (List.cons_ne_nil _ _), List.map_cons, List.map_map,
        List.map_cons]
      have hspace : trimBoth isWhitespace ∘ (fun q => ' ' :: q) = trimBoth isWhitespace :=
        funext fun q => trimBoth_cons_of_pos (by decide)
      rw [hspace]

theorem comma_not_mem_normalizePart {req : String} {part : List Char}
    (hpart : part ∈ req.toList.splitOn ',') : ',' ∉ normalizePart part := by
  have hnot := not_mem_of_mem_splitOn hpart
  have htrim : ',' ∉ trimBoth isWhitespace part := fun hmem =>
    hnot ((trimBoth_sublist isWhitespace part).subset hmem)
  rw [normalizePart_eq, caretDigit]
  split
  · rw [List.mem_cons, not_or]
    exact ⟨by decide, htrim⟩
  · exact htrim

/-- Part for part, in order. -/
theorem requirementParts_normalizeReq (req : String) :
    requirementParts (normalizeReq req) = (requirementParts req).map caretDigit := by
  have hne : (req.toList.splitOn ',').map normalizePart ≠ [] := by
    simp [List.splitOn_ne_nil]
  have hcomma : ∀ piece ∈ (req.toList.splitOn ',').map normalizePart, ',' ∉ piece := by
    intro piece hpiece
    rcases List.mem_map.mp hpiece with ⟨part, hpart, rfl⟩
    exact comma_not_mem_normalizePart hpart
  rw [normalizeReq, requirementParts_join hne hcomma, requirementParts, List.map_map, List.map_map]
  refine List.map_congr_left ?_
  intro part _
  -- A caret leaves nothing to trim.
  have htrimmed := Trimmed.caretDigit (trimmed_trimBoth isWhitespace part)
  rw [Function.comp_apply, Function.comp_apply, normalizePart_eq, htrimmed.trimBoth_eq]

theorem normalizeReq_eq (req : String) :
    normalizeReq req = String.ofList ([',', ' '].intercalate ((requirementParts req).map caretDigit)) := by
  have hparts : normalizePart = caretDigit ∘ trimBoth isWhitespace := funext normalizePart_eq
  rw [normalizeReq, requirementParts, List.map_map, hparts]

theorem normalizeReq_idempotent (req : String) : normalizeReq (normalizeReq req) = normalizeReq req := by
  have htwice : caretDigit ∘ caretDigit = caretDigit := funext caretDigit_caretDigit
  rw [normalizeReq_eq (normalizeReq req), requirementParts_normalizeReq, List.map_map, htwice,
    ← normalizeReq_eq]

/-- Only a version with a wildcard in it gets a caret it should not have. -/
theorem touchesOnlyBare_iff (req : String) :
    TouchesOnlyBare req ↔ ∀ part ∈ requirementParts req, BeginsWithDigit part → '*' ∉ part := by
  have hparts : requirementParts (normalizeReq req) = (requirementParts req).map caretBare ↔
      ∀ part ∈ requirementParts req, BeginsWithDigit part → '*' ∉ part := by
    rw [requirementParts_normalizeReq, List.map_inj_left]
    exact forall₂_congr fun part _ => caretDigit_eq_caretBare_iff part
  exact ⟨fun h => hparts.mp h.parts_eq, fun h => ⟨hparts.mpr h, normalizeReq_idempotent req⟩⟩

/-- `1.2.*` means the releases of 1.2; with a caret it would mean all of 1 from 1.2 on. -/
theorem not_touchesOnlyBare_wildcard :
    normalizeReq "1.2.*" = "^1.2.*" ∧ ¬ TouchesOnlyBare "1.2.*" := by
  refine ⟨by decide, fun h => ?_⟩
  have hparts := h.parts_eq
  revert hparts
  decide

example : normalizeReq "0.4" = "^0.4" ∧ normalizeReq " >=1.0 ,<2" = ">=1.0, <2" ∧
    normalizeReq "*" = "*" := by
  decide

end CargoRegistry
end Aivcs
