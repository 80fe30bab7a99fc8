import Aivcs.Lib.Text

/-!
# Lines — the lines of a text, with what trails them removed

`str::lines` cuts a text behind each newline and takes `"\n"` or `"\r\n"` off each piece.  When the end of every
line is trimmed of white space (`trimmedLines`), neither the kind of line end nor white space in front of it
is seen any more; the lines are read back from a text that terminates each of them (`terminated`).
-/

namespace Aivcs
namespace Lib

/-- `split_inclusive`: each piece but the last ends in the separator. -/
def splitInclusive (sep : Char) : List Char → List (List Char)
  | [] => []
  | c :: cs =>
      if c = sep then [c] :: splitInclusive sep cs
      else
        match splitInclusive sep cs with
        | [] => [[c]]
        | piece :: pieces => (c :: piece) :: pieces

/-- A piece without its `"\n"` or `"\r\n"`. -/
def stripLineEnd (piece : List Char) : List Char :=
  match piece.reverse with
  | '\n' :: '\r' :: line => line.reverse
  | '\n' :: line => line.reverse
  | _ => piece

/-- `str::lines`. -/
def strLines (text : List Char) : List (List Char) :=
  (splitInclusive '\n' text).map stripLineEnd

/-- The lines, each with its end trimmed. -/
def trimmedLines (p : Char → Bool) (text : List Char) : List (List Char) :=
  (strLines text).map (trimEnd p)

/-- Lines, each with a newline behind it. -/
def terminated (lines : List (List Char)) : List Char :=
  lines.flatMap fun line => line ++ ['\n']

/-- The text ends inside a line. -/
def Unterminated (text : List Char) : Prop :=
  text ≠ [] ∧ text.getLast? ≠ some '\n'

instance (text : List Char) : Decidable (Unterminated text) :=
  inferInstanceAs (Decidable (_ ∧ _))

theorem Unterminated.cons {text : List Char} (h : Unterminated text) (c : Char) : Unterminated (c :: text) := by
  refine ⟨List.cons_ne_nil _ _, ?_⟩
  rw [List.getLast?_cons_of_ne_nil h.1]
  exact h.2

theorem Unterminated.exists_concat {text : List Char} (h : Unterminated text) :
    ∃ front c, text = front ++ [c] ∧ c ≠ '\n' := by
  rcases List.eq_nil_or_concat text with rfl | ⟨front, c, rfl⟩
  · exact absurd rfl h.1
  · refine ⟨front, c, List.concat_eq_append, ?_⟩
    rintro rfl
    exact h.2 (by simp)

section Trim

variable {p : Char → Bool} {c : Char} {cs ws : List Char}

theorem trimEnd_append_of_all (h : ∀ c ∈ ws, p c = true) (cs : List Char) : trimEnd p (cs ++ ws) = trimEnd p cs := by
  have hnil : ws.reverse.dropWhile p = [] :=
    List.dropWhile_eq_nil_iff.2 fun c hc => h c (List.mem_reverse.1 hc)
  rw [trimEnd, List.reverse_append, List.dropWhile_append, hnil]
  rfl

theorem trimEnd_eq_nil_iff : trimEnd p cs = [] ↔ ∀ c ∈ cs, p c = true := by
  rw [trimEnd, List.reverse_eq_nil_iff, List.dropWhile_eq_nil_iff]
  simp only [List.mem_reverse]

theorem trimEnd_trimEnd (cs : List Char) : trimEnd p (trimEnd p cs) = trimEnd p cs :=
  List.rdropWhile_idempotent p cs

/-- Trimming may be done before the text is put in front. -/
theorem trimEnd_cons_trimEnd (c : Char) (cs : List Char) : trimEnd p (c :: trimEnd p cs) = trimEnd p (c :: cs) := by
  rcases exists_eq_trimEnd_append p cs with ⟨rest, hcs, hrest⟩
  calc trimEnd p (c :: trimEnd p cs) = trimEnd p ((c :: trimEnd p cs) ++ rest) :=
        (trimEnd_append_of_all hrest _).symm
    _ = trimEnd p (c :: cs) := by rw [List.cons_append, ← hcs]

theorem not_mem_trimEnd (h : c ∉ cs) : c ∉ trimEnd p cs :=
  fun hmem => h ((trimEnd_isPrefix p cs).sublist.subset hmem)

end Trim

section Lines

variable {p : Char → Bool} {c : Char} {text text' : List Char} {line : List Char} {lines : List (List Char)}

/-- What the first line becomes when a character is put in front of it. -/
def consLine (p : Char → Bool) (c : Char) : List (List Char) → List (List Char)
  | [] => [trimEnd p [c]]
  | line :: lines => trimEnd p (c :: line) :: lines

/-- The line end is trimmed off in any case. -/
theorem trimEnd_stripLineEnd (hlf : p '\n' = true) (hcr : p '\r' = true) (piece : List Char) :
    trimEnd p (stripLineEnd piece) = trimEnd p piece := by
  have hends : ∀ c ∈ ['\r', '\n'], p c = true := by
    intro c hc
    rcases List.mem_cons.1 hc with rfl | hc
    · exact hcr
    · rw [List.mem_singleton.1 hc]
      exact hlf
  unfold stripLineEnd
  split
  · rename_i line hline
    have hpiece : piece = line.reverse ++ ['\r', '\n'] := by
      rw [← List.reverse_reverse piece, hline]
      simp
    rw [hpiece, trimEnd_append_of_all hends]
  · rename_i line _ hline
    have hpiece : piece = line.reverse ++ ['\n'] := by
      rw [← List.reverse_reverse piece, hline]
      simp
    rw [hpiece, trimEnd_append_of_all fun c hc => hends c (List.mem_cons_of_mem _ hc)]
  · rfl

theorem trimmedLines_eq (hlf : p '\n' = true) (hcr : p '\r' = true) (text : List Char) :
    trimmedLines p text = (splitInclusive '\n' text).map (trimEnd p) := by
  rw [trimmedLines, strLines, List.map_map]
  exact List.map_congr_left fun piece _ => trimEnd_stripLineEnd hlf hcr piece

theorem flatten_splitInclusive (sep : Char) (text : List Char) : (splitInclusive sep text).flatten = text := by
  induction text with
  | nil => rfl
  | cons c text ih =>
      rw [splitInclusive]
      split_ifs
      · rw [List.flatten_cons, ih]
        rfl
      · cases heq : splitInclusive sep text with
        | nil =>
            rw [heq] at ih
            rw [← ih]
            rfl
        | cons piece pieces =>
            rw [heq] at ih
            rw [← ih]
            rfl

/-- The lines are made of what is in the text. -/
theorem mem_of_mem_trimmedLines (hlf : p '\n' = true) (hcr : p '\r' = true) (h : line ∈ trimmedLines p text)
    (hc : c ∈ line) : c ∈ text := by
  rw [trimmedLines_eq hlf hcr] at h
  rcases List.mem_map.1 h with ⟨piece, hpiece, rfl⟩
  rw [← flatten_splitInclusive '\n' text]
  exact List.mem_flatten.2 ⟨piece, hpiece, (trimEnd_isPrefix p piece).sublist.subset hc⟩

@[simp] theorem trimmedLines_nil : trimmedLines p [] = [] := rfl

section Cons

variable (hlf : p '\n' = true) (hcr : p '\r' = true)
include hlf hcr

/-- A newline at the front is an empty line. -/
theorem trimmedLines_newline (text : List Char) : trimmedLines p ('\n' :: text) = [] :: trimmedLines p text := by
  have hempty : trimEnd p ['\n'] = [] := trimEnd_eq_nil_iff.2 fun c hc => List.mem_singleton.1 hc ▸ hlf
  rw [trimmedLines_eq hlf hcr, trimmedLines_eq hlf hcr, splitInclusive, if_pos rfl, List.map_cons, hempty]

theorem trimmedLines_cons (hc : c ≠ '\n') (text : List Char) :
    trimmedLines p (c :: text) = consLine p c (trimmedLines p text) := by
  rw [trimmedLines_eq hlf hcr, trimmedLines_eq hlf hcr, splitInclusive, if_neg hc]
  cases splitInclusive '\n' text with
  | nil => rfl
  | cons piece pieces => exact congrArg (· :: pieces.map (trimEnd p)) (trimEnd_cons_trimEnd c piece).symm

/-- Of two texts with the same lines the same is said with a character in front. -/
theorem trimmedLines_cons_congr (h : trimmedLines p text = trimmedLines p text') (c : Char) :
    trimmedLines p (c :: text) = trimmedLines p (c :: text') := by
  by_cases hc : c = '\n'
  · rw [hc, trimmedLines_newline hlf hcr, trimmedLines_newline hlf hcr, h]
  · rw [trimmedLines_cons hlf hcr hc, trimmedLines_cons hlf hcr hc, h]

theorem trimmedLines_append_congr (h : trimmedLines p text = trimmedLines p text') (front : List Char) :
    trimmedLines p (front ++ text) = trimmedLines p (front ++ text') := by
  induction front with
  | nil => exact h
  | cons c front ih => exact trimmedLines_cons_congr hlf hcr ih c

/-- White space in front of a newline makes no difference. -/
theorem trimmedLines_space_newline {ws : List Char} (hws : ∀ c ∈ ws, p c = true ∧ c ≠ '\n') (text : List Char) :
    trimmedLines p (ws ++ '\n' :: text) = trimmedLines p ('\n' :: text) := by
  induction ws with
  | nil => rfl
  | cons c ws ih =>
      rw [List.forall_mem_cons] at hws
      have hspace : trimEnd p [c] = [] := trimEnd_eq_nil_iff.2 fun d hd => List.mem_singleton.1 hd ▸ hws.1.1
      rw [List.cons_append, trimmedLines_cons hlf hcr hws.1.2, ih hws.2, trimmedLines_newline hlf hcr]
      exact congrArg (· :: trimmedLines p text) hspace

/-- Nor does white space behind a last line without a newline. -/
theorem trimmedLines_append_space {ws : List Char} (hws : ∀ c ∈ ws, p c = true ∧ c ≠ '\n')
    (h : Unterminated text) : trimmedLines p (text ++ ws) = trimmedLines p text := by
  have hblank : ws ≠ [] → trimmedLines p ws = [[]] := by
    intro hne
    induction ws with
    | nil => exact absurd rfl hne
    | cons c ws ih =>
        rw [List.forall_mem_cons] at hws
        have hspace : trimEnd p [c] = [] := trimEnd_eq_nil_iff.2 fun d hd => List.mem_singleton.1 hd ▸ hws.1.1
        rw [trimmedLines_cons hlf hcr hws.1.2]
        by_cases hnil : ws = []
        · rw [hnil]
          exact congrArg (fun line => [line]) hspace
        · rw [ih hws.2 hnil]
          exact congrArg (fun line => [line]) hspace
  -- Only what is behind the last character before the white space counts.
  rcases h.exists_concat with ⟨front, c, rfl, hc⟩
  rw [List.append_assoc]
  refine trimmedLines_append_congr hlf hcr ?_ front
  rw [List.singleton_append, trimmedLines_cons hlf hcr hc, trimmedLines_cons hlf hcr hc]
  by_cases hnil : ws = []
  · rw [hnil]
  · rw [hblank hnil]
    rfl

/-- A text is cut at the start of any line. -/
theorem trimmedLines_append (h : ¬ Unterminated text) (rest : List Char) :
    trimmedLines p (text ++ rest) = trimmedLines p text ++ trimmedLines p rest := by
  induction text with
  | nil => rfl
  | cons c text ih =>
      have htext : ¬ Unterminated text := fun hopen => h (hopen.cons c)
      by_cases hc : c = '\n'
      · rw [hc, List.cons_append, trimmedLines_newline hlf hcr, ih htext, trimmedLines_newline hlf hcr]
        rfl
      · have hne : text ≠ [] := by
          rintro rfl
          exact h ⟨List.cons_ne_nil _ _, fun hlast => hc (Option.some.inj hlast)⟩
        -- The character joins the first line of the text, which is there.
        have hlines : trimmedLines p text ≠ [] := by
          cases text with
          | nil => exact absurd rfl hne
          | cons d text =>
              by_cases hd : d = '\n'
              · rw [hd, trimmedLines_newline hlf hcr]
                exact List.cons_ne_nil _ _
              · rw [trimmedLines_cons hlf hcr hd]
                cases trimmedLines p text <;> exact List.cons_ne_nil _ _
        rw [List.cons_append, trimmedLines_cons hlf hcr hc, ih htext, trimmedLines_cons hlf hcr hc]
        rcases List.exists_cons_of_ne_nil hlines with ⟨line, lines, heq⟩
        rw [heq]
        rfl

/-- The newline that ends the last line adds none. -/
theorem trimmedLines_append_newline (h : Unterminated text) (rest : List Char) :
    trimmedLines p (text ++ '\n' :: rest) = trimmedLines p text ++ trimmedLines p rest := by
  have hend : trimmedLines p (text ++ ['\n']) = trimmedLines p text := by
    rcases h.exists_concat with ⟨front, c, rfl, hc⟩
    rw [List.append_assoc]
    refine trimmedLines_append_congr hlf hcr ?_ front
    rw [List.singleton_append, trimmedLines_cons hlf hcr hc, trimmedLines_cons hlf hcr hc,
      trimmedLines_newline hlf hcr]
    rfl
  have hwhole : ¬ Unterminated (text ++ ['\n']) := by
    rintro ⟨_, hlast⟩
    exact hlast (by simp)
  calc trimmedLines p (text ++ '\n' :: rest) = trimmedLines p ((text ++ ['\n']) ++ rest) := by
        rw [List.append_assoc, List.singleton_append]
    _ = trimmedLines p text ++ trimmedLines p rest := by rw [trimmedLines_append hlf hcr hwhole, hend]

theorem trimmedLines_replicate (k : Nat) : trimmedLines p (List.replicate k '\n') = List.replicate k [] := by
  induction k with
  | zero => rfl
  | succ k ih => rw [List.replicate_succ, trimmedLines_newline hlf hcr, ih, List.replicate_succ]

/-- A trimmed line has no newline, and is as it is when it is trimmed again. -/
theorem trimmedLines_mem (h : line ∈ trimmedLines p text) : '\n' ∉ line ∧ trimEnd p line = line := by
  induction text generalizing line with
  | nil => cases h
  | cons c text ih =>
      by_cases hc : c = '\n'
      · rw [hc, trimmedLines_newline hlf hcr] at h
        rcases List.mem_cons.1 h with rfl | h
        · exact ⟨List.not_mem_nil, rfl⟩
        · exact ih h
      · rw [trimmedLines_cons hlf hcr hc] at h
        cases heq : trimmedLines p text with
        | nil =>
            rw [heq] at h
            rw [List.mem_singleton.1 h]
            exact ⟨not_mem_trimEnd (by simpa using Ne.symm hc), trimEnd_trimEnd _⟩
        | cons first lines =>
            rw [heq] at h ih
            rcases List.mem_cons.1 h with rfl | h
            · have hfirst := ih List.mem_cons_self
              exact ⟨not_mem_trimEnd (List.not_mem_cons_of_ne_of_not_mem (Ne.symm hc) hfirst.1), trimEnd_trimEnd _⟩
            · exact ih (List.mem_cons_of_mem _ h)

/-- Terminated lines are read back. -/
theorem trimmedLines_terminated (h : ∀ line ∈ lines, '\n' ∉ line ∧ trimEnd p line = line) :
    trimmedLines p (terminated lines) = lines := by
  -- The first newline of such a text is the one that ends its first line.
  have hone (line : List Char) (hline : '\n' ∉ line) (text : List Char) :
      trimmedLines p (line ++ '\n' :: text) = trimEnd p line :: trimmedLines p text := by
    induction line with
    | nil => exact trimmedLines_newline hlf hcr text
    | cons c line ih =>
        rw [List.mem_cons, not_or] at hline
        rw [List.cons_append, trimmedLines_cons hlf hcr (Ne.symm hline.1), ih hline.2]
        exact congrArg (· :: trimmedLines p text) (trimEnd_cons_trimEnd c line)
  induction lines with
  | nil => rfl
  | cons line lines ih =>
      rw [List.forall_mem_cons] at h
      rw [terminated, List.flatMap_cons, List.append_assoc, List.singleton_append, hone line h.1.1, h.1.2]
      exact congrArg (line :: ·) (ih h.2)

end Cons

end Lines

end Lib
end Aivcs
