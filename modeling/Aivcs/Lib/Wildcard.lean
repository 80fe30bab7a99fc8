import Mathlib.Data.List.Forall2

/-!
# Wildcard — patterns with a wildcard that does not cross a separator

A pattern is a list of letters; the letter `star` stands for any text without the letter `sep`, every other
letter for itself.

* `Matches` is the matching relation;
* `Meets` is the relation of matchers that compare letters before they look for a wildcard: where a
  wildcard meets a `star` of the text, it stands for that letter and no more;
* `Meets.shift` — what makes it enough to go back to the last wildcard only: a pattern that follows its own
  text literally up to `rest` loses nothing by being matched further down instead.

The last part is about patterns of tokens of any kind: `Expands stands` replaces each token by a piece of
text it stands for, and the lemmas about `pattern ++ [t]` are the steps of a matcher that goes through the
pattern and keeps, for every prefix of the text, whether it has been matched.
-/

namespace Aivcs
namespace Lib
namespace Wildcard

variable {α : Type} {star sep : α}

/-- The text is the pattern with every wildcard replaced by some text without separators. -/
inductive Matches (star sep : α) : List α → List α → Prop
  | nil : Matches star sep [] []
  | letter {c : α} {pattern text : List α} (hc : c ≠ star) (h : Matches star sep pattern text) :
      Matches star sep (c :: pattern) (c :: text)
  | wild {pattern text : List α} (skipped : List α) (hskipped : sep ∉ skipped)
      (h : Matches star sep pattern text) : Matches star sep (star :: pattern) (skipped ++ text)

/-- As `Matches`, but a wildcard that meets a `star` of the text stands for exactly that letter. -/
inductive Meets (star sep : α) : List α → List α → Prop
  | nil : Meets star sep [] []
  | letter {c : α} {pattern text : List α} (hc : c ≠ star) (h : Meets star sep pattern text) :
      Meets star sep (c :: pattern) (c :: text)
  | wild {pattern text : List α} (skipped : List α) (hskipped : sep ∉ skipped)
      (hhead : (skipped ++ text).head? ≠ some star) (h : Meets star sep pattern text) :
      Meets star sep (star :: pattern) (skipped ++ text)
  | itself {pattern text : List α} (h : Meets star sep pattern text) :
      Meets star sep (star :: pattern) (star :: text)

/-- A wildcard of the pattern can be placed somewhere in the text, `pattern` being what follows it. -/
def MeetsAfter (star sep : α) (pattern text : List α) : Prop :=
  ∃ skipped rest, text = skipped ++ rest ∧ sep ∉ skipped ∧ Meets star sep pattern rest

section Cases

variable {c d : α} {pattern text : List α}

@[simp] theorem meets_nil_iff : Meets star sep [] text ↔ text = [] := by
  constructor
  · rintro ⟨⟩
    rfl
  · rintro rfl
    exact .nil

theorem meets_same_iff : Meets star sep (c :: pattern) (c :: text) ↔ Meets star sep pattern text := by
  constructor
  · intro h
    generalize htext : c :: text = text' at h
    cases h with
    | letter _ h =>
        cases htext
        exact h
    | wild skipped _ hhead h =>
        -- A wildcard of the pattern and a `star` of the text: only `itself` applies.
        rw [← htext] at hhead
        exact absurd rfl hhead
    | itself h =>
        cases htext
        exact h
  · intro h
    by_cases hc : c = star
    · subst hc
      exact .itself h
    · exact .letter hc h

/-- A pattern that begins with neither a wildcard nor the next letter is not matched. -/
theorem not_meets_of_head?_ne (hne : pattern.head? ≠ some d) (hstar : pattern.head? ≠ some star) :
    ¬ Meets star sep pattern (d :: text) := by
  intro h
  generalize htext : d :: text = text' at h
  cases h with
  | nil =>
      cases htext
  | letter _ h =>
      cases htext
      exact hne rfl
  | wild =>
      exact hstar rfl
  | itself =>
      exact hstar rfl

/-- A wildcard that meets another letter can be placed anywhere up to the next separator. -/
theorem meets_star_iff (hhead : text.head? ≠ some star) :
    Meets star sep (star :: pattern) text ↔ MeetsAfter star sep pattern text := by
  constructor
  · intro h
    generalize hpattern : star :: pattern = pattern' at h
    cases h with
    | nil =>
        cases hpattern
    | letter hc h =>
        cases hpattern
        exact absurd rfl hc
    | wild skipped hskipped _ h =>
        cases hpattern
        exact ⟨skipped, _, rfl, hskipped, h⟩
    | itself h =>
        exact absurd rfl hhead
  · rintro ⟨skipped, rest, rfl, hskipped, h⟩
    exact .wild skipped hskipped hhead h

/-- At the end of the text a wildcard stands for nothing. -/
theorem meets_nil_right_iff : Meets star sep pattern [] ↔ ∀ c ∈ pattern, c = star := by
  induction pattern with
  | nil =>
      simp
  | cons c pattern ih =>
      rw [List.forall_mem_cons, ← ih]
      constructor
      · intro h
        generalize htext : ([] : List α) = text' at h
        cases h with
        | letter =>
            cases htext
        | wild skipped _ _ h =>
            rw [List.nil_eq, List.append_eq_nil_iff] at htext
            rw [htext.1]
            exact ⟨rfl, h⟩
        | itself =>
            cases htext
      · rintro ⟨rfl, h⟩
        exact .wild [] List.not_mem_nil nofun h

theorem meetsAfter_nil : MeetsAfter star sep pattern [] ↔ Meets star sep pattern [] := by
  constructor
  · rintro ⟨skipped, rest, htext, _, h⟩
    rw [List.nil_eq, List.append_eq_nil_iff] at htext
    rwa [htext.2] at h
  · intro h
    exact ⟨[], [], rfl, List.not_mem_nil, h⟩

/-- The wildcard ends here, or it takes one more letter. -/
theorem meetsAfter_cons : MeetsAfter star sep pattern (c :: text) ↔
    Meets star sep pattern (c :: text) ∨ c ≠ sep ∧ MeetsAfter star sep pattern text := by
  constructor
  · rintro ⟨skipped, rest, htext, hskipped, h⟩
    cases skipped with
    | nil =>
        rw [List.nil_append] at htext
        exact .inl (htext ▸ h)
    | cons d skipped =>
        rw [List.cons_append, List.cons.injEq] at htext
        obtain ⟨rfl, htext⟩ := htext
        rw [List.mem_cons, not_or] at hskipped
        exact .inr ⟨Ne.symm hskipped.1, skipped, rest, htext, hskipped.2, h⟩
  · rintro (h | ⟨hc, skipped, rest, rfl, hskipped, h⟩)
    · exact ⟨[], c :: text, rfl, List.not_mem_nil, h⟩
    · refine ⟨c :: skipped, rest, rfl, ?_, h⟩
      rw [List.mem_cons, not_or]
      exact ⟨hc.symm, hskipped⟩

end Cases

section Relations

variable {pattern text : List α}

theorem Meets.matches (hstar : star ≠ sep) (h : Meets star sep pattern text) :
    Matches star sep pattern text := by
  induction h with
  | nil =>
      exact .nil
  | letter hc _ ih =>
      exact .letter hc ih
  | wild skipped hskipped _ _ ih =>
      exact .wild skipped hskipped ih
  | itself _ ih =>
      exact .wild [star] (by simpa using hstar.symm) ih

/-- Without a `star` in the text the two relations are the same. -/
theorem Matches.meets (h : Matches star sep pattern text) (htext : star ∉ text) :
    Meets star sep pattern text := by
  induction h with
  | nil =>
      exact .nil
  | letter hc _ ih =>
      exact .letter hc (ih fun h => htext (List.mem_cons_of_mem _ h))
  | wild skipped hskipped _ ih =>
      have hrest := ih fun h => htext (List.mem_append_right _ h)
      exact .wild skipped hskipped (fun h => htext (List.mem_of_mem_head? h)) hrest

/-- So they are without a wildcard in the pattern. -/
theorem Matches.meets_of_literal (h : Matches star sep pattern text) (hpattern : star ∉ pattern) :
    Meets star sep pattern text := by
  induction h with
  | nil =>
      exact .nil
  | letter hc _ ih =>
      exact .letter hc (ih fun h => hpattern (List.mem_cons_of_mem _ h))
  | wild =>
      exact absurd List.mem_cons_self hpattern

/-- What the first letter of the pattern is matched with passes no separator, unless it is one. -/
theorem Meets.after_head (hstar : star ≠ sep) {c : α} (hc : c ≠ sep)
    (h : Meets star sep (c :: pattern) text) : MeetsAfter star sep pattern text := by
  generalize hpattern : c :: pattern = pattern' at h
  cases h with
  | nil =>
      cases hpattern
  | letter _ h =>
      cases hpattern
      exact ⟨[c], _, rfl, by simpa using hc.symm, h⟩
  | wild skipped hskipped _ h =>
      cases hpattern
      exact ⟨skipped, _, rfl, hskipped, h⟩
  | itself h =>
      cases hpattern
      exact ⟨[star], _, rfl, by simpa using hstar.symm, h⟩

/-- Of two wildcards in a row the second can take the place of both. -/
theorem MeetsAfter.of_star (hstar : star ≠ sep) (h : MeetsAfter star sep (star :: pattern) text) :
    MeetsAfter star sep pattern text := by
  obtain ⟨skipped, rest, rfl, hskipped, h⟩ := h
  obtain ⟨passed, rest', rfl, hpassed, h⟩ := h.after_head hstar hstar
  refine ⟨skipped ++ passed, rest', (List.append_assoc _ _ _).symm, ?_, h⟩
  rw [List.mem_append, not_or]
  exact ⟨hskipped, hpassed⟩

/-- A pattern begins with letters that the text begins with as well.  Wherever it is matched further down,
its remainder is matched at or after the remainder of the text, with no separator passed. -/
theorem Meets.shift (hstar : star ≠ sep) (common skipped : List α) {pattern text rest : List α}
    (htext : common ++ text = skipped ++ rest) (hskipped : sep ∉ skipped)
    (h : Meets star sep (common ++ pattern) rest) : MeetsAfter star sep pattern text := by
  -- Both copies advance together; `skipped` is the stretch of text between them.
  induction common generalizing skipped rest with
  | nil =>
      exact ⟨skipped, rest, htext, hskipped, h⟩
  | cons c common ih =>
      rw [List.cons_append] at htext h
      cases skipped with
      | nil =>
          -- The copies have met: the letter is matched with itself.
          rw [List.nil_append] at htext
          rw [← htext, meets_same_iff] at h
          exact ih [] rfl List.not_mem_nil h
      | cons d skipped =>
          -- The stretch loses its first letter and gains what this one is matched with.
          rw [List.cons_append, List.cons.injEq] at htext
          obtain ⟨rfl, htext⟩ := htext
          rw [List.mem_cons, not_or] at hskipped
          obtain ⟨hc, hskipped⟩ := hskipped
          obtain ⟨passed, rest', rfl, hpassed, h⟩ := h.after_head hstar (Ne.symm hc)
          refine ih (skipped ++ passed) ?_ ?_ h
          · rw [htext, List.append_assoc]
          · rw [List.mem_append, not_or]
            exact ⟨hskipped, hpassed⟩

end Relations

/-! ## Expansions -/

/-- The text is the pattern with every token replaced by a piece it stands for. -/
def Expands {τ α : Type} (stands : τ → List α → Prop) (pattern : List τ) (text : List α) : Prop :=
  ∃ pieces, List.Forall₂ stands pattern pieces ∧ pieces.flatten = text

section Expansions

variable {τ α : Type} {stands : τ → List α → Prop} {pattern : List τ} {t : τ} {text : List α}

theorem expands_nil : Expands stands [] text ↔ text = [] := by
  constructor
  · rintro ⟨pieces, hpieces, htext⟩
    rw [List.forall₂_nil_left_iff] at hpieces
    rw [← htext, hpieces, List.flatten_nil]
  · intro htext
    exact ⟨[], .nil, htext.symm⟩

theorem forall₂_concat_left {pieces : List (List α)} (h : List.Forall₂ stands (pattern ++ [t]) pieces) :
    ∃ fronts piece, pieces = fronts ++ [piece] ∧ List.Forall₂ stands pattern fronts ∧ stands t piece := by
  rw [← List.reverse_reverse pieces, ← List.forall₂_reverse_iff, List.reverse_concat,
    List.forall₂_cons_left_iff, List.reverse_reverse] at h
  rcases h with ⟨piece, rest, hpiece, hrest, hpieces⟩
  refine ⟨rest.reverse, piece, ?_, ?_, hpiece⟩
  · rw [← List.reverse_reverse pieces, hpieces, List.reverse_cons]
  · rw [← List.reverse_reverse pattern, List.forall₂_reverse_iff]
    exact hrest

theorem expands_concat : Expands stands (pattern ++ [t]) text ↔
    ∃ front piece, front ++ piece = text ∧ Expands stands pattern front ∧ stands t piece := by
  constructor
  · rintro ⟨pieces, hpieces, htext⟩
    rcases forall₂_concat_left hpieces with ⟨fronts, piece, rfl, hfronts, hpiece⟩
    refine ⟨fronts.flatten, piece, ?_, ⟨fronts, hfronts, rfl⟩, hpiece⟩
    rw [← htext, List.flatten_append, List.flatten_singleton]
  · rintro ⟨front, piece, htext, ⟨fronts, hfronts, rfl⟩, hpiece⟩
    refine ⟨fronts ++ [piece], List.rel_append hfronts (List.Forall₂.cons hpiece .nil), ?_⟩
    rw [List.flatten_append, List.flatten_singleton, htext]

/-- A last token that stands for any text: the others have matched some shorter prefix. -/
theorem expands_concat_any (h : ∀ piece, stands t piece) (i : ℕ) :
    Expands stands (pattern ++ [t]) (text.take i) ↔
      ∃ j ≤ i, Expands stands pattern (text.take j) := by
  rw [expands_concat]
  constructor
  · rintro ⟨front, piece, htext, hfront, -⟩
    have hstart : front <+: text.take i := ⟨piece, htext⟩
    have hlen : front.length ≤ i := Nat.le_trans hstart.length_le (List.length_take_le i text)
    have hfrontEq : front = text.take front.length :=
      List.prefix_iff_eq_take.mp (hstart.trans (List.take_prefix i text))
    exact ⟨front.length, hlen, hfrontEq ▸ hfront⟩
  · rintro ⟨j, hj, hfront⟩
    refine ⟨text.take j, (text.take i).drop j, ?_, hfront, h _⟩
    calc text.take j ++ (text.take i).drop j
        = (text.take i).take j ++ (text.take i).drop j := by
          rw [List.take_take, Nat.min_eq_left hj]
      _ = text.take i := List.take_append_drop j _

/-- A last token that stands for single letters needs one. -/
theorem not_expands_concat_nil (h : ∀ piece, stands t piece → piece ≠ []) :
    ¬ Expands stands (pattern ++ [t]) [] := by
  intro hexp
  rcases expands_concat.mp hexp with ⟨front, piece, htext, -, hpiece⟩
  exact h piece hpiece (List.append_eq_nil_iff.mp htext).2

theorem expands_concat_one {p : α → Prop} (h : ∀ piece, stands t piece ↔ ∃ c, piece = [c] ∧ p c) {i : ℕ}
    {c : α} (hc : text[i]? = some c) :
    Expands stands (pattern ++ [t]) (text.take (i + 1)) ↔
      Expands stands pattern (text.take i) ∧ p c := by
  rw [expands_concat, List.take_add_one, hc, Option.toList_some]
  constructor
  · rintro ⟨front, piece, htext, hfront, hpiece⟩
    rcases (h piece).mp hpiece with ⟨d, rfl, hd⟩
    -- Both sides end in one letter.
    rcases List.append_inj' htext rfl with ⟨rfl, hlast⟩
    cases hlast
    exact ⟨hfront, hd⟩
  · rintro ⟨hfront, hp⟩
    exact ⟨text.take i, [c], rfl, hfront, (h [c]).mpr ⟨c, rfl, hp⟩⟩

end Expansions

end Wildcard
end Lib
end Aivcs
