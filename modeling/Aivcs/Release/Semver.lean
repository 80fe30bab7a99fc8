import Aivcs.Lib.Decimal

/-!
# Release.Semver — version labels

`Semver::parse` splits a label at its first hyphen and at its dots and leaves the three numbers to
`str::parse::<u64>`, which takes one leading plus as well.

* `parse_eq_some_iff` — the labels that are accepted, and what is read from them;
* `Grammar` — `MAJOR.MINOR.PATCH` with an optional pre-release suffix, digits only;
* `parsesExactly_iff` — the labels on which the parser agrees with the grammar.
-/

namespace Aivcs
namespace Release

open Lib

/-! ## The parser -/

structure Semver where
  major : UInt64
  minor : UInt64
  patch : UInt64
  pre : Option String
  deriving DecidableEq

/-- A number without its leading plus. -/
def unsigned : List Char → List Char
  | '+' :: ds => ds
  | ds => ds

/-- `str::parse::<u64>`: a leading plus is skipped, the rest has to be a numeral of 64 bits. -/
def parseU64 (cs : List Char) : Option UInt64 :=
  let ds := unsigned cs
  if Numeral ds ∧ decimal ds < 2 ^ 64 then some (UInt64.ofNat (decimal ds)) else none

/-- The version and the pre-release suffix: the split at the first hyphen, unless nothing follows it. -/
def splitPre (input : List Char) : List Char × Option String :=
  match splitOnce '-' input with
  | some (v, p) => if p ≠ [] then (v, some (String.ofList p)) else (input, none)
  | none => (input, none)

def Semver.parse (input : String) : Option Semver :=
  let (versionPart, pre) := splitPre input.toList
  match versionPart.splitOn '.' with
  | [major, minor, patch] => do
      let major ← parseU64 major
      let minor ← parseU64 minor
      let patch ← parseU64 patch
      some ⟨major, minor, patch, pre⟩
  | _ => none

/-! ## Spellings -/

/-- The parts of a version label, as they are written. -/
structure Spelling where
  major : List Char
  minor : List Char
  patch : List Char
  pre : Option String

/-- The pre-release suffix with its hyphen. -/
def suffix : Option String → List Char
  | none => []
  | some p => '-' :: p.toList

def Spelling.text (v : Spelling) : List Char :=
  v.major ++ '.' :: (v.minor ++ '.' :: (v.patch ++ suffix v.pre))

/-- The three numbers are of the form `P`, and a suffix is not empty. -/
structure Spelling.Of (P : List Char → Prop) (v : Spelling) : Prop where
  major : P v.major
  minor : P v.minor
  patch : P v.patch
  pre : v.pre ≠ some ""

/-- ASCII digits, at least one, with a value of at most `u64::MAX`. -/
def IsU64 (ds : List Char) : Prop :=
  Numeral ds ∧ decimal ds < 2 ^ 64

/-- The same, after a plus if there is one. -/
def SignedU64 (cs : List Char) : Prop :=
  IsU64 cs ∨ ∃ ds, cs = '+' :: ds ∧ IsU64 ds

/-- The value of a number, with or without a plus. -/
def magnitude (cs : List Char) : Nat :=
  decimal (unsigned cs)

def Spelling.numbers (v : Spelling) : Nat × Nat × Nat :=
  (magnitude v.major, magnitude v.minor, magnitude v.patch)

def Spelling.semver (v : Spelling) : Semver :=
  ⟨UInt64.ofNat (magnitude v.major), UInt64.ofNat (magnitude v.minor), UInt64.ofNat (magnitude v.patch), v.pre⟩

/-! ## Numbers -/

section Numbers

variable {cs ds : List Char}

theorem unsigned_of_ne {c : Char} (hc : c ≠ '+') (ds : List Char) : unsigned (c :: ds) = c :: ds := by
  unfold unsigned
  split
  · rename_i heq
    exact absurd (List.cons.inj heq).1 hc
  · rfl

theorem IsU64.head?_ne (h : IsU64 ds) : ds.head? ≠ some '+' := by
  intro hhead
  exact absurd (h.1.2 '+' (List.mem_of_mem_head? hhead)) (by decide)

theorem IsU64.unsigned_eq (h : IsU64 ds) : unsigned ds = ds := by
  cases ds with
  | nil =>
      rfl
  | cons c ds =>
      exact unsigned_of_ne (fun hc => h.head?_ne (congrArg some hc)) ds

theorem signedU64_iff : SignedU64 cs ↔ IsU64 (unsigned cs) := by
  constructor
  · rintro (h | ⟨ds, rfl, h⟩)
    · rwa [h.unsigned_eq]
    · exact h
  · intro h
    cases cs with
    | nil =>
        exact .inl h
    | cons c cs =>
        by_cases hc : c = '+'
        · subst hc
          exact .inr ⟨cs, rfl, h⟩
        · rw [unsigned_of_ne hc] at h
          exact .inl h

/-- A number without a plus is its digits. -/
theorem SignedU64.isU64 (h : SignedU64 cs) (hplus : cs.head? ≠ some '+') : IsU64 cs := by
  rcases h with h | ⟨ds, rfl, -⟩
  · exact h
  · exact absurd rfl hplus

/-- No other character than digits and the plus. -/
theorem SignedU64.not_mem (h : SignedU64 cs) {c : Char} (hdigit : c.isDigit = false) (hplus : c ≠ '+') :
    c ∉ cs := by
  intro hmem
  rcases h with hds | ⟨ds, rfl, hds⟩
  · exact Bool.eq_false_iff.mp hdigit (hds.1.2 c hmem)
  · rcases List.mem_cons.mp hmem with heq | hmem
    · exact hplus heq
    · exact Bool.eq_false_iff.mp hdigit (hds.1.2 c hmem)

theorem parseU64_eq_some_iff {n : UInt64} :
    parseU64 cs = some n ↔ SignedU64 cs ∧ n = UInt64.ofNat (magnitude cs) := by
  rw [signedU64_iff, parseU64, IsU64, magnitude, Option.ite_none_right_eq_some, Option.some_inj, eq_comm]

theorem SignedU64.magnitude_inj (h : SignedU64 cs) (h' : SignedU64 ds)
    (heq : UInt64.ofNat (magnitude cs) = UInt64.ofNat (magnitude ds)) : magnitude cs = magnitude ds := by
  -- Neither value wraps around.
  have hlt : magnitude cs < 2 ^ 64 := (signedU64_iff.mp h).2
  have hlt' : magnitude ds < 2 ^ 64 := (signedU64_iff.mp h').2
  calc magnitude cs = (UInt64.ofNat (magnitude cs)).toNat := (UInt64.toNat_ofNat_of_lt' hlt).symm
    _ = (UInt64.ofNat (magnitude ds)).toNat := by rw [heq]
    _ = magnitude ds := UInt64.toNat_ofNat_of_lt' hlt'

end Numbers

/-! ## What is read -/

section Read

variable {v w : Spelling} {s : String}

theorem splitPre_append {cs : List Char} {pre : Option String} (hcs : '-' ∉ cs) (hpre : pre ≠ some "") :
    splitPre (cs ++ suffix pre) = (cs, pre) := by
  cases pre with
  | none =>
      rw [suffix, List.append_nil, splitPre, splitOnce_eq_none_iff.mpr hcs]
  | some p =>
      have hp : p.toList ≠ [] := fun hnil => hpre (congrArg some (String.toList_eq_nil_iff.mp hnil))
      rw [suffix, splitPre, splitOnce_append hcs]
      simp [hp]

theorem splitPre_spec (cs : List Char) :
    cs = (splitPre cs).1 ++ suffix (splitPre cs).2 ∧ (splitPre cs).2 ≠ some "" := by
  unfold splitPre
  split
  · rename_i x y hsplit
    split
    · rename_i hy
      refine ⟨?_, fun heq => hy ?_⟩
      · rw [suffix, String.toList_ofList]
        exact (splitOnce_eq_some_iff.mp hsplit).1
      · simpa using heq
    · exact ⟨(List.append_nil cs).symm, Option.some_ne_none _ |>.symm⟩
  · exact ⟨(List.append_nil cs).symm, Option.some_ne_none _ |>.symm⟩

theorem splitOn_numbers {a b c : List Char} (ha : '.' ∉ a) (hb : '.' ∉ b) (hc : '.' ∉ c) :
    (a ++ '.' :: (b ++ '.' :: c)).splitOn '.' = [a, b, c] := by
  rw [splitOn_append_of_not_mem ha, List.splitOn_cons_eq_if_modifyHead, if_pos (by simp),
    splitOn_append_of_not_mem hb, List.splitOn_cons_eq_if_modifyHead, if_pos (by simp),
    List.splitOn_eq_singleton hc]
  simp

/-- The numbers of a label, without the suffix. -/
def Spelling.version (v : Spelling) : List Char :=
  v.major ++ '.' :: (v.minor ++ '.' :: v.patch)

theorem Spelling.text_eq (v : Spelling) : v.text = v.version ++ suffix v.pre := by
  simp [Spelling.text, Spelling.version]

namespace Spelling.Of

theorem splitPre_text (hv : v.Of SignedU64) : splitPre v.text = (v.version, v.pre) := by
  -- The first hyphen is that of the suffix: there is none in a number.
  have hmajor := hv.major.not_mem (c := '-') (by decide) (by decide)
  have hminor := hv.minor.not_mem (c := '-') (by decide) (by decide)
  have hpatch := hv.patch.not_mem (c := '-') (by decide) (by decide)
  rw [Spelling.text_eq]
  exact splitPre_append (by simp [Spelling.version, hmajor, hminor, hpatch]) hv.pre

theorem splitOn_version (hv : v.Of SignedU64) : v.version.splitOn '.' = [v.major, v.minor, v.patch] :=
  splitOn_numbers (hv.major.not_mem (by decide) (by decide)) (hv.minor.not_mem (by decide) (by decide))
    (hv.patch.not_mem (by decide) (by decide))

/-- A label is spelled in one way. -/
theorem eq_of_text_eq (hv : v.Of SignedU64) (hw : w.Of SignedU64) (h : v.text = w.text) : v = w := by
  have hsplit : (v.version, v.pre) = (w.version, w.pre) := by
    rw [← hv.splitPre_text, ← hw.splitPre_text, h]
  rcases Prod.mk.inj hsplit with ⟨hversion, hpre⟩
  have hparts : [v.major, v.minor, v.patch] = [w.major, w.minor, w.patch] := by
    rw [← hv.splitOn_version, ← hw.splitOn_version, hversion]
  cases v
  cases w
  simp_all

theorem parse_eq (hv : v.Of SignedU64) (hs : s.toList = v.text) : Semver.parse s = some v.semver := by
  have hnumber : ∀ {cs : List Char}, SignedU64 cs → parseU64 cs = some (UInt64.ofNat (magnitude cs)) :=
    fun h => parseU64_eq_some_iff.mpr ⟨h, rfl⟩
  simp only [Semver.parse, hs, hv.splitPre_text, hv.splitOn_version, hnumber hv.major, hnumber hv.minor,
    hnumber hv.patch]
  rfl

end Spelling.Of

/-- The labels that are accepted, and what is read from them. -/
theorem parse_eq_some_iff {v : Semver} :
    Semver.parse s = some v ↔ ∃ w : Spelling, w.Of SignedU64 ∧ s.toList = w.text ∧ v = w.semver := by
  constructor
  · intro h
    have hspec := splitPre_spec s.toList
    rw [Semver.parse] at h
    rcases hsplit : splitPre s.toList with ⟨version, pre⟩
    rw [hsplit] at h hspec
    simp only at h
    split at h
    · rename_i major minor patch hparts
      simp only [Option.bind_eq_bind, Option.bind_eq_some_iff, Option.some_inj] at h
      rcases h with ⟨x, hx, y, hy, z, hz, rfl⟩
      rcases parseU64_eq_some_iff.mp hx with ⟨hmajor, rfl⟩
      rcases parseU64_eq_some_iff.mp hy with ⟨hminor, rfl⟩
      rcases parseU64_eq_some_iff.mp hz with ⟨hpatch, rfl⟩
      refine ⟨⟨major, minor, patch, pre⟩, ⟨hmajor, hminor, hpatch, hspec.2⟩, ?_, rfl⟩
      -- The pieces with dots between them and the suffix are the label again.
      calc s.toList = version ++ suffix pre := hspec.1
        _ = ['.'].intercalate [major, minor, patch] ++ suffix pre := by
            rw [← hparts, List.intercalate_splitOn]
        _ = Spelling.text ⟨major, minor, patch, pre⟩ := by
            simp [Spelling.text, List.intercalate]
    · cases h
  · rintro ⟨w, hw, hs, rfl⟩
    exact hw.parse_eq hs

end Read

/-! ## The grammar -/

/-- `MAJOR.MINOR.PATCH` in digits, and an optional pre-release suffix that is not empty. -/
def Grammar (s : String) : Prop :=
  ∃ v : Spelling, v.Of IsU64 ∧ s.toList = v.text

/-- A label of that shape with a plus in front of one of its numbers. -/
def PlusForm (s : String) : Prop :=
  ∃ v : Spelling, v.Of SignedU64 ∧ s.toList = v.text ∧
    (v.major.head? = some '+' ∨ v.minor.head? = some '+' ∨ v.patch.head? = some '+')

/-- The parser accepts the grammar and nothing else, and what it reads determines the numbers and the suffix. -/
structure ParsesExactly (s : String) : Prop where
  accepts : (Semver.parse s).isSome = true ↔ Grammar s
  determines : ∀ (t : String) (v w : Spelling), v.Of SignedU64 → s.toList = v.text → w.Of SignedU64 →
    t.toList = w.text → Semver.parse s = Semver.parse t → v.numbers = w.numbers ∧ v.pre = w.pre

theorem Spelling.Of.mono {P Q : List Char → Prop} {v : Spelling} (h : v.Of P) (hPQ : ∀ cs, P cs → Q cs) :
    v.Of Q :=
  ⟨hPQ _ h.major, hPQ _ h.minor, hPQ _ h.patch, h.pre⟩

theorem parse_isSome_iff {s : String} :
    (Semver.parse s).isSome = true ↔ ∃ v : Spelling, v.Of SignedU64 ∧ s.toList = v.text := by
  rw [Option.isSome_iff_exists]
  constructor
  · rintro ⟨_, hparse⟩
    rcases parse_eq_some_iff.mp hparse with ⟨v, hv, hs, -⟩
    exact ⟨v, hv, hs⟩
  · rintro ⟨v, hv, hs⟩
    exact ⟨v.semver, hv.parse_eq hs⟩

theorem not_grammar_of_plusForm {s : String} (h : PlusForm s) : ¬ Grammar s := by
  rintro ⟨w, hw, hws⟩
  rcases h with ⟨v, hv, hvs, hplus⟩
  -- The label is spelled in one way, so the digits are the numbers with the plus.
  have heq := hv.eq_of_text_eq (hw.mono fun _ => .inl) (hvs.symm.trans hws)
  subst heq
  rcases hplus with hplus | hplus | hplus
  · exact hw.major.head?_ne hplus
  · exact hw.minor.head?_ne hplus
  · exact hw.patch.head?_ne hplus

theorem grammar_of_not_plusForm {s : String} {v : Spelling} (hv : v.Of SignedU64) (hs : s.toList = v.text)
    (h : ¬ PlusForm s) : Grammar s := by
  -- One plus would be enough for the form that is excluded.
  have hplain : v.major.head? ≠ some '+' ∧ v.minor.head? ≠ some '+' ∧ v.patch.head? ≠ some '+' := by
    refine ⟨fun hm => h ⟨v, hv, hs, .inl hm⟩, fun hm => h ⟨v, hv, hs, .inr (.inl hm)⟩,
      fun hm => h ⟨v, hv, hs, .inr (.inr hm)⟩⟩
  exact ⟨v, ⟨hv.major.isU64 hplain.1, hv.minor.isU64 hplain.2.1, hv.patch.isU64 hplain.2.2, hv.pre⟩, hs⟩

/-- Two labels with one value have the same numbers and the same suffix. -/
theorem numbers_eq_of_parse_eq {s t : String} {v w : Spelling} (hv : v.Of SignedU64) (hs : s.toList = v.text)
    (hw : w.Of SignedU64) (ht : t.toList = w.text) (h : Semver.parse s = Semver.parse t) :
    v.numbers = w.numbers ∧ v.pre = w.pre := by
  rw [hv.parse_eq hs, hw.parse_eq ht, Option.some_inj, Spelling.semver, Spelling.semver, Semver.mk.injEq] at h
  rcases h with ⟨hmajor, hminor, hpatch, hpre⟩
  refine ⟨?_, hpre⟩
  rw [Spelling.numbers, Spelling.numbers, hv.major.magnitude_inj hw.major hmajor,
    hv.minor.magnitude_inj hw.minor hminor, hv.patch.magnitude_inj hw.patch hpatch]

/-- The parser is right on a label unless one of its numbers has a plus. -/
theorem parsesExactly_iff (s : String) : ParsesExactly s ↔ ¬ PlusForm s := by
  constructor
  · intro h hplus
    have haccepted : (Semver.parse s).isSome = true := by
      rcases hplus with ⟨v, hv, hs, -⟩
      exact parse_isSome_iff.mpr ⟨v, hv, hs⟩
    exact not_grammar_of_plusForm hplus (h.accepts.mp haccepted)
  · intro hplus
    refine ⟨⟨fun haccepted => ?_, fun hgrammar => ?_⟩, fun t v w => numbers_eq_of_parse_eq⟩
    · rcases parse_isSome_iff.mp haccepted with ⟨v, hv, hs⟩
      exact grammar_of_not_plusForm hv hs hplus
    · rcases hgrammar with ⟨v, hv, hs⟩
      exact parse_isSome_iff.mpr ⟨v, hv.mono fun _ => .inl, hs⟩

/-- `+1.2.3` is accepted. -/
theorem not_parsesExactly_plus : ¬ ParsesExactly "+1.2.3" := by
  intro h
  have hplus : PlusForm "+1.2.3" := by
    refine ⟨⟨"+1".toList, "2".toList, "3".toList, none⟩, ⟨?_, ?_, ?_, by decide⟩, by decide, .inl rfl⟩
    · exact .inr ⟨['1'], rfl, by decide, by decide⟩
    · exact .inl ⟨by decide, by decide⟩
    · exact .inl ⟨by decide, by decide⟩
  exact not_grammar_of_plusForm hplus (h.accepts.mp (by decide))

end Release
end Aivcs
