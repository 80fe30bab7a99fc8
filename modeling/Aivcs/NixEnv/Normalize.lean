import Aivcs.Lib.Lines
import Aivcs.Lib.Ndjson
import Aivcs.Lib.Utf8Lossy

/-!
# NixEnv.Normalize — source text before it is hashed

`normalize_source` trims the end of every line, joins the lines with newlines and adds one where the text does not
end in one.  A blank line at the end becomes the end of the line before it; a second one stays, and with it a
second newline.

* `normalizeSource_eq` — the result is the trimmed lines without one blank line at the end, each terminated.
* `canonical_iff` — that is canonical as long as no more than one blank line is at the end.
-/

namespace Aivcs
namespace NixEnv

open Aivcs.Lib

/-- The lines of a source, without the white space at their ends. -/
def sourceLines (text : List Char) : List (List Char) :=
  trimmedLines isWhitespace text

def normalizeSource (content : Bytes) : Bytes :=
  let text := fromUtf8Lossy content
  let normalized := ['\n'].intercalate ((strLines text).map (trimEnd isWhitespace))
  ensureTrailingNewline (utf8 (String.ofList normalized))

/-! ## What the edits are -/

/-- Some newlines of the first text are replaced by CRLF. -/
inductive CrlfFor : List Char → List Char → Prop where
  | nil : CrlfFor [] []
  | keep (c : Char) {text text' : List Char} : CrlfFor text text' → CrlfFor (c :: text) (c :: text')
  | crlf {text text' : List Char} : CrlfFor text text' → CrlfFor ('\n' :: text) ('\r' :: '\n' :: text')

/-- A line ends between the two parts of a text. -/
inductive LineEnds : List Char → List Char → Prop where
  | lf (front back : List Char) : LineEnds front ('\n' :: back)
  | crlf (front back : List Char) : LineEnds front ('\r' :: '\n' :: back)
  | last {front : List Char} : Unterminated front → LineEnds front []

/-- What `normalize_source` makes of a text is canonical, with `k` newlines that may be appended to it. -/
structure Canonical (text : String) (k : Nat) : Prop where
  idempotent : normalizeSource (normalizeSource (utf8 text)) = normalizeSource (utf8 text)
  crlf : ∀ text' : String, CrlfFor text.toList text'.toList →
    normalizeSource (utf8 text') = normalizeSource (utf8 text)
  trailingSpace : ∀ front space back : String, text = front ++ back → LineEnds front.toList back.toList →
    (∀ c ∈ space.toList, isWhitespace c = true ∧ c ≠ '\n') →
    normalizeSource (utf8 (front ++ space ++ back)) = normalizeSource (utf8 text)
  appended : text ≠ "" →
    normalizeSource (utf8 (text ++ String.ofList (List.replicate k '\n'))) = normalizeSource (utf8 text)
  oneNewline : normalizeSource (utf8 text) ≠ [] →
    ∃ rest, normalizeSource (utf8 text) = rest ++ [10] ∧ rest.getLast? ≠ some 10

/-- How many lines at the end of a text are nothing but white space. -/
def trailingBlankLines (text : List Char) : Nat :=
  ((strLines text).reverse.takeWhile fun line => line.all isWhitespace).length

/-! ## The result -/

section Result

variable {lines lines' : List (List Char)} {text : List Char}

/-- The lines without a blank one at the end. -/
def withoutLastBlank (lines : List (List Char)) : List (List Char) :=
  if lines.getLast? = some [] then lines.dropLast else lines

theorem withoutLastBlank_concat (lines : List (List Char)) (line : List Char) :
    withoutLastBlank (lines ++ [line]) = if line = [] then lines else lines ++ [line] := by
  simp [withoutLastBlank]

theorem mem_of_mem_withoutLastBlank {line : List Char} (h : line ∈ withoutLastBlank lines) : line ∈ lines := by
  unfold withoutLastBlank at h
  split_ifs at h
  · exact List.mem_of_mem_dropLast h
  · exact h

theorem intercalate_concat (lines : List (List Char)) (line : List Char) :
    ['\n'].intercalate (lines ++ [line]) = terminated lines ++ line := by
  induction lines with
  | nil => exact List.intercalate_singleton
  | cons first lines ih =>
      have hne : lines ++ [line] ≠ [] := by simp
      rw [List.cons_append, List.intercalate_cons_of_ne_nil hne, ih]
      simp [terminated]

theorem getLast?_utf8 (text : List Char) :
    (utf8 (String.ofList text)).getLast? = some 10 ↔ text.getLast? = some '\n' := by
  rcases List.eq_nil_or_concat text with rfl | ⟨front, c, rfl⟩
  · simp [utf8]
  · rw [List.concat_eq_append, List.getLast?_concat, utf8_ofList, List.flatMap_append, List.flatMap_singleton,
      List.getLast?_append_of_ne_nil _ (String.utf8EncodeChar_ne_nil)]
    constructor
    · intro h
      exact congrArg some (eq_of_mem_utf8EncodeChar (by decide) rfl (List.mem_of_getLast? h))
    · intro h
      rw [Option.some.inj h]
      decide

theorem ensureTrailingNewline_utf8 (text : List Char) :
    ensureTrailingNewline (utf8 (String.ofList text)) =
      utf8 (String.ofList (if Unterminated text then text ++ ['\n'] else text)) := by
  have hempty : utf8 (String.ofList text) = [] ↔ text = [] := by
    rw [← String.ofList_eq_empty_iff, ← utf8_injective.eq_iff]
    rfl
  have hnewline : utf8 (String.ofList ['\n']) = [10] := by decide
  have hopen : (!(utf8 (String.ofList text)).isEmpty && (utf8 (String.ofList text)).getLast? != some 10) = true ↔
      Unterminated text := by
    rw [Bool.and_eq_true, Bool.not_eq_true', List.isEmpty_eq_false_iff, bne_iff_ne, ne_eq, ne_eq, hempty, getLast?_utf8]
    rfl
  unfold ensureTrailingNewline
  by_cases h : Unterminated text
  · rw [if_pos (hopen.2 h), if_pos h, String.ofList_append, utf8_append, hnewline]
  · rw [if_neg (mt hopen.1 h), if_neg h]

end Result

/-- The line ends in white space, whatever ends it. -/
theorem whitespace_newline : isWhitespace '\n' = true := by decide

theorem whitespace_return : isWhitespace '\r' = true := by decide

theorem mem_sourceLines {text line : List Char} (h : line ∈ sourceLines text) :
    '\n' ∉ line ∧ trimEnd isWhitespace line = line :=
  trimmedLines_mem whitespace_newline whitespace_return h

/-- A blank line at the end is dropped and every other line terminated. -/
theorem normalizeSource_eq (content : Bytes) :
    normalizeSource content =
      utf8 (String.ofList (terminated (withoutLastBlank (sourceLines (fromUtf8Lossy content))))) := by
  have hlines := @mem_sourceLines (fromUtf8Lossy content)
  unfold normalizeSource
  change ensureTrailingNewline (utf8 (String.ofList (['\n'].intercalate (sourceLines (fromUtf8Lossy content))))) = _
  rw [ensureTrailingNewline_utf8]
  congr 2
  rcases List.eq_nil_or_concat (sourceLines (fromUtf8Lossy content)) with heq | ⟨lines, line, heq⟩
  · rw [heq]
    rfl
  · rw [List.concat_eq_append] at heq
    rw [heq, intercalate_concat, withoutLastBlank_concat]
    -- Behind a blank last line the joined text already ends in a newline, and none is pushed.
    by_cases hline : line = []
    · have hended : ¬ Unterminated (terminated lines ++ []) := by
        rintro ⟨hne, hlast⟩
        rw [List.append_nil] at hne hlast
        rcases List.eq_nil_or_concat lines with rfl | ⟨front, last, rfl⟩
        · exact hne rfl
        · exact hlast (by simp [terminated])
      rw [hline, if_neg hended, if_pos rfl, List.append_nil]
    · have hopen : Unterminated (terminated lines ++ line) := by
        refine ⟨by simp [hline], ?_⟩
        rw [List.getLast?_append_of_ne_nil _ hline]
        intro hlast
        exact (hlines (heq ▸ List.mem_concat_self)).1 (List.mem_of_getLast? hlast)
      rw [if_pos hopen, if_neg hline]
      simp [terminated]

theorem fromUtf8Lossy_utf8 (text : String) : fromUtf8Lossy (utf8 text) = text.toList := by
  have h := fromUtf8Lossy_utf8_append text.toList []
  rwa [String.ofList_toList, List.append_nil, fromUtf8Lossy_nil, List.append_nil] at h

theorem normalizeSource_utf8 (text : String) :
    normalizeSource (utf8 text) =
      utf8 (String.ofList (terminated (withoutLastBlank (sourceLines text.toList)))) := by
  rw [normalizeSource_eq, fromUtf8Lossy_utf8]

/-- Nothing but newlines is added. -/
theorem mem_of_mem_normalized {text : List Char} {c : Char}
    (h : c ∈ terminated (withoutLastBlank (sourceLines text))) : c = '\n' ∨ c ∈ text := by
  rcases List.mem_flatMap.1 h with ⟨line, hline, hc⟩
  rcases List.mem_append.1 hc with hc | hc
  · exact Or.inr (mem_of_mem_trimmedLines whitespace_newline whitespace_return (mem_of_mem_withoutLastBlank hline) hc)
  · exact Or.inl (List.mem_singleton.1 hc)

/-- What holds no NUL is normalised to what holds none. -/
theorem nul_not_mem_normalizeSource {content : Bytes} (h : (0 : UInt8) ∉ content) :
    (0 : UInt8) ∉ normalizeSource content := by
  rw [normalizeSource_eq]
  intro hmem
  have hnul := mem_of_mem_utf8_ofList (d := '\x00') (by decide) rfl hmem
  rcases mem_of_mem_normalized hnul with hnewline | htext
  · exact absurd hnewline (by decide)
  · exact h (mem_of_mem_fromUtf8Lossy (by decide) htext)

/-- The lines of the result are the lines that were terminated. -/
theorem sourceLines_terminated (text : List Char) :
    sourceLines (terminated (withoutLastBlank (sourceLines text))) = withoutLastBlank (sourceLines text) :=
  trimmedLines_terminated whitespace_newline whitespace_return fun _ hline =>
    mem_sourceLines (mem_of_mem_withoutLastBlank hline)

/-- Texts are normalised alike when their lines are, but for a blank one at the end. -/
theorem normalizeSource_inj {text text' : String} :
    normalizeSource (utf8 text) = normalizeSource (utf8 text') ↔
      withoutLastBlank (sourceLines text.toList) = withoutLastBlank (sourceLines text'.toList) := by
  rw [normalizeSource_utf8, normalizeSource_utf8]
  constructor
  · intro h
    rw [← sourceLines_terminated text.toList, String.ofList_injective (utf8_injective h), sourceLines_terminated]
  · intro h
    rw [h]

theorem normalizeSource_idempotent_iff (text : String) :
    normalizeSource (normalizeSource (utf8 text)) = normalizeSource (utf8 text) ↔
      withoutLastBlank (withoutLastBlank (sourceLines text.toList)) = withoutLastBlank (sourceLines text.toList) := by
  have hlines : sourceLines (String.ofList (terminated (withoutLastBlank (sourceLines text.toList)))).toList =
      withoutLastBlank (sourceLines text.toList) := by
    rw [String.toList_ofList, sourceLines_terminated]
  calc normalizeSource (normalizeSource (utf8 text)) = normalizeSource (utf8 text)
      ↔ normalizeSource (utf8 (String.ofList (terminated (withoutLastBlank (sourceLines text.toList))))) =
          normalizeSource (utf8 text) := by rw [← normalizeSource_utf8 text]
    _ ↔ _ := by rw [normalizeSource_inj, hlines]

/-! ## Blank lines at the end -/

/-- How many of the lines at the end are empty. -/
def blankEnd (lines : List (List Char)) : Nat :=
  (lines.reverse.takeWhile List.isEmpty).length

section BlankEnd

variable (lines : List (List Char)) (line : List Char)

theorem blankEnd_concat : blankEnd (lines ++ [line]) = if line = [] then blankEnd lines + 1 else 0 := by
  rw [blankEnd, List.reverse_append, List.reverse_singleton, List.singleton_append, List.takeWhile_cons]
  cases line <;> rfl

theorem blankEnd_append_replicate (k : Nat) : blankEnd (lines ++ List.replicate k []) = blankEnd lines + k := by
  induction k with
  | zero => rw [List.replicate_zero, List.append_nil, Nat.add_zero]
  | succ k ih =>
      rw [List.replicate_succ', ← List.append_assoc, blankEnd_concat, if_pos rfl, ih]
      rfl

/-- A second blank line is dropped only when there is one. -/
theorem withoutLastBlank_eq_self_iff : withoutLastBlank lines = lines ↔ blankEnd lines = 0 := by
  rcases List.eq_nil_or_concat lines with rfl | ⟨front, last, rfl⟩
  · exact ⟨fun _ => rfl, fun _ => rfl⟩
  · rw [List.concat_eq_append, withoutLastBlank_concat, blankEnd_concat]
    split_ifs with hlast
    · simp
    · simp

theorem withoutLastBlank_idempotent_iff :
    withoutLastBlank (withoutLastBlank lines) = withoutLastBlank lines ↔ blankEnd lines ≤ 1 := by
  rw [withoutLastBlank_eq_self_iff]
  rcases List.eq_nil_or_concat lines with rfl | ⟨front, last, rfl⟩
  · exact ⟨fun _ => Nat.zero_le 1, fun _ => rfl⟩
  · rw [List.concat_eq_append, withoutLastBlank_concat, blankEnd_concat]
    split_ifs with hlast
    · omega
    · rw [blankEnd_concat, if_neg hlast]
      omega

/-- Blank lines that are added are seen, but for a first one behind a line that is not blank. -/
theorem withoutLastBlank_append_replicate_iff (k : Nat) :
    withoutLastBlank (lines ++ List.replicate k []) = withoutLastBlank lines ↔
      k = 0 ∨ (k = 1 ∧ blankEnd lines = 0) := by
  cases k with
  | zero => simp
  | succ k =>
      rw [List.replicate_succ', ← List.append_assoc, withoutLastBlank_concat, if_pos rfl]
      constructor
      · intro h
        -- Only one of the added lines is dropped, so the lengths agree for one line at most.
        have hle : (withoutLastBlank lines).length ≤ lines.length := by
          unfold withoutLastBlank
          split_ifs
          · rw [List.length_dropLast]
            exact Nat.sub_le _ _
          · exact Nat.le_refl _
        have hlength : lines.length + k ≤ lines.length := by
          rwa [← h, List.length_append, List.length_replicate] at hle
        obtain rfl : k = 0 := by omega
        rw [List.replicate_zero, List.append_nil] at h
        exact Or.inr ⟨rfl, (withoutLastBlank_eq_self_iff lines).1 h.symm⟩
      · rintro (hk | ⟨hk, hblank⟩)
        · exact absurd hk (Nat.succ_ne_zero k)
        · rw [Nat.succ.inj hk, List.replicate_zero, List.append_nil, (withoutLastBlank_eq_self_iff lines).2 hblank]

end BlankEnd

theorem trailingBlankLines_eq (text : List Char) : trailingBlankLines text = blankEnd (sourceLines text) := by
  have hblank (line : List Char) : line.all isWhitespace = (trimEnd isWhitespace line).isEmpty := by
    rw [Bool.eq_iff_iff, List.all_eq_true, List.isEmpty_iff, trimEnd_eq_nil_iff]
  rw [trailingBlankLines, blankEnd, sourceLines, trimmedLines, ← List.map_reverse, List.takeWhile_map, List.length_map]
  exact congrArg (fun p => (List.takeWhile p (strLines text).reverse).length) (funext hblank)

/-! ## The edits -/

theorem whitespace_of_return : ∀ c ∈ ['\r'], isWhitespace c = true ∧ c ≠ '\n' := by
  intro c hc
  rw [List.mem_singleton.1 hc]
  exact ⟨whitespace_return, by decide⟩

theorem sourceLines_of_crlfFor {text text' : List Char} (h : CrlfFor text text') :
    sourceLines text' = sourceLines text := by
  induction h with
  | nil => rfl
  | keep c _ ih => exact trimmedLines_cons_congr whitespace_newline whitespace_return ih c
  | crlf _ ih =>
      rename_i text text' _
      calc sourceLines ('\r' :: '\n' :: text') = sourceLines ('\n' :: text') :=
            trimmedLines_space_newline whitespace_newline whitespace_return whitespace_of_return text'
        _ = sourceLines ('\n' :: text) := trimmedLines_cons_congr whitespace_newline whitespace_return ih _

theorem sourceLines_of_lineEnds {front back space : List Char} (h : LineEnds front back)
    (hspace : ∀ c ∈ space, isWhitespace c = true ∧ c ≠ '\n') :
    sourceLines (front ++ space ++ back) = sourceLines (front ++ back) := by
  rw [List.append_assoc]
  cases h with
  | lf back =>
      exact trimmedLines_append_congr whitespace_newline whitespace_return
        (trimmedLines_space_newline whitespace_newline whitespace_return hspace back) front
  | crlf back =>
      refine trimmedLines_append_congr whitespace_newline whitespace_return ?_ front
      -- The carriage return is white space at the end of its line like what is put in front of it.
      have hboth : ∀ c ∈ space ++ ['\r'], isWhitespace c = true ∧ c ≠ '\n' := by
        intro c hc
        exact (List.mem_append.1 hc).elim (hspace c) (whitespace_of_return c)
      calc trimmedLines isWhitespace (space ++ '\r' :: '\n' :: back)
          = trimmedLines isWhitespace ((space ++ ['\r']) ++ '\n' :: back) := by
            rw [List.append_assoc, List.singleton_append]
        _ = trimmedLines isWhitespace ('\n' :: back) :=
            trimmedLines_space_newline whitespace_newline whitespace_return hboth back
        _ = trimmedLines isWhitespace ('\r' :: '\n' :: back) :=
            (trimmedLines_space_newline whitespace_newline whitespace_return whitespace_of_return back).symm
  | last hopen =>
      rw [List.append_nil, List.append_nil]
      exact trimmedLines_append_space whitespace_newline whitespace_return hspace hopen

/-- The first of the newlines may end a line that is there. -/
theorem sourceLines_append_newlines (text : List Char) (k : Nat) :
    sourceLines (text ++ List.replicate k '\n') =
      sourceLines text ++ List.replicate (if Unterminated text then k - 1 else k) [] := by
  split_ifs with hopen
  · cases k with
    | zero => simp
    | succ k =>
        rw [List.replicate_succ, sourceLines,
          trimmedLines_append_newline whitespace_newline whitespace_return hopen,
          trimmedLines_replicate whitespace_newline whitespace_return]
        rfl
  · rw [sourceLines, trimmedLines_append whitespace_newline whitespace_return hopen,
      trimmedLines_replicate whitespace_newline whitespace_return]
    rfl

/-- A newline that ends a line which is not blank is the only one. -/
theorem terminated_concat_oneNewline {lines : List (List Char)} {line : List Char} (hne : line ≠ [])
    (hline : '\n' ∉ line) :
    ∃ rest, utf8 (String.ofList (terminated (lines ++ [line]))) = rest ++ [10] ∧ rest.getLast? ≠ some 10 := by
  refine ⟨utf8 (String.ofList (terminated lines ++ line)), ?_, ?_⟩
  · have hnewline : utf8 (String.ofList ['\n']) = [10] := by decide
    rw [← hnewline, ← utf8_append, ← String.ofList_append]
    simp [terminated]
  · rw [ne_eq, getLast?_utf8, List.getLast?_append_of_ne_nil _ hne]
    exact fun hlast => hline (List.mem_of_getLast? hlast)

/-- Normalisation is canonical for the empty text, and where at most one blank line is at the end, counting the
newlines that are appended. -/
theorem canonical_iff (text : String) (k : Nat) :
    Canonical text k ↔
      text = "" ∨ trailingBlankLines (text.toList ++ List.replicate k '\n') ≤ 1 := by
  have hjoined : (text ++ String.ofList (List.replicate k '\n')).toList = text.toList ++ List.replicate k '\n' := by
    rw [String.toList_append, String.toList_ofList]
  rw [trailingBlankLines_eq, sourceLines_append_newlines, blankEnd_append_replicate]
  constructor
  · -- Idempotence bounds the blank lines of the text itself, the appended newlines those behind them.
    intro h
    by_cases htext : text = ""
    · exact Or.inl htext
    · right
      have hblank := (withoutLastBlank_idempotent_iff _).1 ((normalizeSource_idempotent_iff text).1 h.idempotent)
      have happended := normalizeSource_inj.1 (h.appended htext)
      rw [hjoined, sourceLines_append_newlines, withoutLastBlank_append_replicate_iff] at happended
      omega
  · intro h
    have hblank : blankEnd (sourceLines text.toList) ≤ 1 := by
      rcases h with rfl | h
      · exact Nat.zero_le 1
      · omega
    refine ⟨?_, ?_, ?_, ?_, ?_⟩
    · exact (normalizeSource_idempotent_iff text).2 ((withoutLastBlank_idempotent_iff _).2 hblank)
    · intro text' hcrlf
      rw [normalizeSource_inj, sourceLines_of_crlfFor hcrlf]
    · rintro front space back rfl hends hspace
      rw [normalizeSource_inj, String.toList_append, String.toList_append, sourceLines_of_lineEnds hends hspace,
        String.toList_append]
    · intro htext
      rw [normalizeSource_inj, hjoined, sourceLines_append_newlines, withoutLastBlank_append_replicate_iff]
      rcases h with h | h
      · exact absurd h htext
      · omega
    · intro hne
      rw [normalizeSource_utf8] at hne ⊢
      -- What is left of the lines does not end in a blank one.
      have hlast := (withoutLastBlank_eq_self_iff _).1 ((withoutLastBlank_idempotent_iff _).2 hblank)
      rcases List.eq_nil_or_concat (withoutLastBlank (sourceLines text.toList)) with hnil | ⟨lines, line, hlines⟩
      · rw [hnil] at hne
        exact absurd rfl hne
      · rw [List.concat_eq_append] at hlines
        rw [hlines, blankEnd_concat] at hlast
        have hline : line ≠ [] := by
          rintro rfl
          exact absurd hlast (by simp)
        have hmem : line ∈ sourceLines text.toList :=
          mem_of_mem_withoutLastBlank (hlines ▸ List.mem_concat_self)
        rw [hlines]
        exact terminated_concat_oneNewline hline (mem_sourceLines hmem).1

/-- Two blank lines at the end: the result ends in two newlines, and loses one when it is normalised again. -/
theorem not_canonical_blank_lines : ¬ Canonical "a\n\n\n" 0 := by
  intro h
  have hlines := (normalizeSource_idempotent_iff _).1 h.idempotent
  exact absurd hlines (by decide)

end NixEnv
end Aivcs
