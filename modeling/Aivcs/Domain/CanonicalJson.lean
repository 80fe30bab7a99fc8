import Aivcs.Domain.Digest

/-!
# Domain.CanonicalJson — which values canonical JSON identifies

The canonical text is to be the same for two values exactly when they are the same document, numbers
compared by what they denote.  Normalising a number keeps its value except at the upper edge of `i64`:
`2⁶³` as a float becomes the integer `2⁶³ - 1`, and the floats from there to `2⁶⁴`, which are integers a
`u64` holds too, stay floats.

* `normalizeNumber_eq_iff` — away from the edge, numbers normalise to the same exactly when they are equal;
* `exists_breaking` — at the edge there is always a number for which they do not;
* `canonical_identifies_iff` — the two lifted to documents.
-/

namespace Aivcs
namespace Domain

open Lib

namespace Number

/-- The value, in the unit of floats. -/
def units : Number → Int
  | .int n _ => n * F64.one
  | .float f => f.units

/-- The integer that the number is. -/
def toInt? : Number → Option Int
  | .int n _ => some n
  | .float f => f.toInt?

def Integral (a : Number) : Prop :=
  a.toInt?.isSome

/-- The integers at which an `i64`, a `u64` and a float disagree: the largest `i64`, and the floats from
there on that a `u64` holds, which are the multiples of `2¹¹`. -/
def IsEdge (n : Int) : Prop :=
  n = 2 ^ 63 - 1 ∨ 2 ^ 63 ≤ n ∧ n < 2 ^ 64 ∧ (2048 : Int) ∣ n

def AtEdge (a : Number) : Prop :=
  ∃ n, a.toInt? = some n ∧ IsEdge n

theorem units_eq_iff {a : Number} {n : Int} : a.toInt? = some n ↔ a.units = n * F64.one := by
  cases a with
  | int m range =>
      have hone : (F64.one : Int) ≠ 0 := by exact_mod_cast F64.one_pos.ne'
      rw [toInt?, units, Option.some.injEq]
      exact ⟨fun h => by rw [h], fun h => Int.eq_of_mul_eq_mul_right hone h⟩
  | float f =>
      exact F64.toInt?_eq_some

/-- Equal to an integer is equal to the integer it is. -/
theorem units_eq_units_iff {a b : Number} {n : Int} (ha : a.toInt? = some n) :
    a.units = b.units ↔ b.toInt? = some n := by
  rw [units_eq_iff.1 ha, units_eq_iff, eq_comm]

end Number

open Number

/-- What becomes of a number: an integer it is equal to; the largest `i64` in place of `2⁶³`; or it stays a
float, and if that is an integer it is outside `i64`. -/
theorem normalizeNumber_cases (a : Number) :
    (∃ n range, a.toInt? = some n ∧ normalizeNumber a = .int n range) ∨
      (∃ range, a.toInt? = some (2 ^ 63) ∧ normalizeNumber a = .int (2 ^ 63 - 1) range ∧
        ∃ f, a = .float f) ∨
      ∃ f, a = .float f ∧ normalizeNumber a = .float f ∧
        ∀ n, a.toInt? = some n → n < -2 ^ 63 ∨ 2 ^ 63 < n := by
  cases a with
  | int n range =>
      exact .inl ⟨n, range, rfl, rfl⟩
  | float f =>
      cases hf : f.toInt? with
      | none =>
          refine .inr (.inr ⟨f, rfl, by simp only [normalizeNumber, hf], ?_⟩)
          intro n hn
          rw [Number.toInt?, hf] at hn
          cases hn
      | some n =>
          by_cases hin : -2 ^ 63 ≤ n ∧ n ≤ 2 ^ 63
          · have hnorm : normalizeNumber (.float f) = .int (asI64 n) (asI64_range n) := by
              simp only [normalizeNumber, hf, if_pos hin]
            by_cases htop : n = 2 ^ 63
            · -- `i64::MAX as f64` rounds up to `2⁶³`, so it passes the test and the cast saturates.
              subst htop
              exact .inr (.inl ⟨by decide, hf, hnorm, f, rfl⟩)
            · have hsame : asI64 n = n := by
                unfold asI64
                omega
              refine .inl ⟨n, by omega, hf, ?_⟩
              rw [hnorm]
              simp only [hsame]
          · refine .inr (.inr ⟨f, rfl, by simp only [normalizeNumber, hf, if_neg hin], ?_⟩)
            intro m hm
            rw [Number.toInt?, hf, Option.some.injEq] at hm
            omega

/-- The number is the integer `n`, which it normalises to: what the others become, compared with it. -/
theorem normalizeNumber_eq_iff_of_int {a : Number} (hedge : ¬ a.AtEdge) {n : Int} (range)
    (ha : a.toInt? = some n) (hnorm : normalizeNumber a = .int n range) (b : Number) :
    normalizeNumber a = normalizeNumber b ↔ a.units = b.units := by
  have hoff : ¬ IsEdge n := fun h => hedge ⟨n, ha, h⟩
  rw [units_eq_units_iff ha, hnorm]
  rcases normalizeNumber_cases b with ⟨m, mrange, hb, hbnorm⟩ | ⟨_, hb, hbnorm, _⟩ |
    ⟨f, rfl, hbnorm, hout⟩
  · rw [hb, hbnorm, int.injEq, Option.some.injEq, eq_comm]
  · rw [hb, hbnorm, int.injEq, Option.some.injEq]
    constructor
    · intro h
      exact absurd (.inl h) hoff
    · rintro rfl
      exact absurd (.inr ⟨le_refl _, by decide, by decide⟩) hoff
  · rw [hbnorm]
    refine ⟨nofun, fun h => ?_⟩
    -- The integer is in the range of `u64`, and being a float too it is a multiple of `2¹¹`.
    have hbig : 2 ^ 63 < n := (hout n h).resolve_left (by omega)
    exact absurd (.inr ⟨hbig.le, range.2, F64.dvd_of_toInt? h (j := 11) hbig.le⟩) hoff

/-- Away from the edge, numbers normalise to the same exactly when they are equal. -/
theorem normalizeNumber_eq_iff {a : Number} (hedge : ¬ a.AtEdge) (b : Number) :
    normalizeNumber a = normalizeNumber b ↔ a.units = b.units := by
  rcases normalizeNumber_cases a with ⟨n, range, ha, hnorm⟩ | ⟨_, ha, _, _⟩ | ⟨f, rfl, hnorm, hout⟩
  · exact normalizeNumber_eq_iff_of_int hedge range ha hnorm b
  · exact absurd ⟨_, ha, .inr ⟨le_refl _, by decide, by decide⟩⟩ hedge
  rcases normalizeNumber_cases b with ⟨m, mrange, hb, hbnorm⟩ | ⟨_, hb, hbnorm, _⟩ |
    ⟨g, rfl, hbnorm, _⟩
  · rw [hnorm, hbnorm]
    refine ⟨nofun, fun h => ?_⟩
    -- A float equal to an integer is not outside `i64` unless it is at the edge.
    have ha : (float f).toInt? = some m := (units_eq_units_iff hb).1 h.symm
    have hbig : 2 ^ 63 < m := (hout m ha).resolve_left (by omega)
    exact absurd ⟨m, ha, .inr ⟨hbig.le, mrange.2, F64.dvd_of_toInt? ha (j := 11) hbig.le⟩⟩ hedge
  · rw [hnorm, hbnorm]
    refine ⟨nofun, fun h => ?_⟩
    have ha : (float f).toInt? = some (2 ^ 63) := (units_eq_units_iff hb).1 h.symm
    exact absurd (hout _ ha) (by decide)
  · rw [hnorm, hbnorm, float.injEq]
    -- Floats of one value are equal but for the two zeros, and zero is an `i64`.
    refine ⟨fun h => by rw [h], fun h => F64.eq_of_units h ?_⟩
    intro hzero
    have ha : (float f).toInt? = some 0 := units_eq_iff.2 (by rw [Int.zero_mul]; exact hzero)
    exact absurd (hout 0 ha) (by decide)

/-- The float `2⁶³`. -/
def twoPow63 : F64 :=
  F64.ofMultiple (2 ^ 52) (by decide)

theorem toInt?_twoPow63 : twoPow63.toInt? = some (2 ^ 63) :=
  F64.toInt?_ofMultiple (by decide)

theorem normalizeNumber_twoPow63 :
    normalizeNumber (.float twoPow63) = .int (2 ^ 63 - 1) (by decide) := by
  simp only [normalizeNumber, toInt?_twoPow63]
  rfl

/-- A float and a `u64` that are the same integer from `2⁶³` on do not normalise to the same. -/
theorem normalizeNumber_float_ne_int {f : F64} {n : Int} (hf : f.toInt? = some n)
    (hn : 2 ^ 63 ≤ n) (range) : normalizeNumber (.float f) ≠ .int n range := by
  simp only [normalizeNumber, hf]
  split
  · intro h
    have hcast : asI64 n = n := (int.inj h)
    unfold asI64 at hcast
    omega
  · intro h
    cases h

/-- The largest `i64` is not a float. -/
theorem float_ne_maxI64 (f : F64) : f.toInt? ≠ some (2 ^ 63 - 1) := by
  intro h
  exact absurd (F64.dvd_of_toInt? h (j := 10) (by decide)) (by decide)

/-- At the edge, equality is not kept or not reflected. -/
theorem exists_breaking {a : Number} (hedge : a.AtEdge) :
    ∃ b : Number, b.Integral ∧
      ¬ (normalizeNumber a = normalizeNumber b ↔ a.units = b.units) := by
  rcases hedge with ⟨n, ha, rfl | ⟨hn, hn', hdvd⟩⟩
  · cases a with
    | float f =>
        exact absurd ha (float_ne_maxI64 f)
    | int m range =>
        obtain rfl : m = 2 ^ 63 - 1 := Option.some.inj ha
        -- Different numbers, one normal form.
        refine ⟨.float twoPow63, ?_, ?_⟩
        · rw [Number.Integral, Number.toInt?, toInt?_twoPow63]
          rfl
        · rw [normalizeNumber_twoPow63, units_eq_units_iff ha, Number.toInt?, toInt?_twoPow63]
          intro h
          exact absurd (h.1 rfl) (by decide)
  · cases a with
    | float f =>
        -- Equal numbers, two normal forms; so for the other order below.
        refine ⟨.int n (by omega), rfl, fun h => ?_⟩
        exact normalizeNumber_float_ne_int ha hn _ (h.2 ((units_eq_units_iff ha).2 rfl))
    | int m range =>
        obtain rfl : m = n := Option.some.inj ha
        rcases (F64.exists_toInt?_iff hn hn').2 hdvd with ⟨f, hf⟩
        refine ⟨.float f, by rw [Number.Integral, Number.toInt?, hf]; rfl, fun h => ?_⟩
        exact normalizeNumber_float_ne_int hf hn range (h.2 ((units_eq_units_iff ha).2 hf)).symm

/-! ## Documents -/

namespace Value

/-- Its numbers are integers, written as integers or as floats. -/
def Integral (x : Value) : Prop :=
  ∀ n ∈ x.doc.numbers, n.Integral

/-- The same document: members in any order, numbers by their value. -/
def Equal (x y : Value) : Prop :=
  Doc.Same (fun a b => a.units = b.units) x.doc y.doc

/-- The value with each number replaced. -/
def mapNum (f : Number → Number) (x : Value) : Value where
  doc := x.doc.mapNum f
  unique := Doc.uniqueKeys_mapNum f x.unique

end Value

section Documents

variable {fmt : F64 → Bytes} (hfmt : FloatText fmt)
include hfmt

/-- The canonical text forgets the order of members and what normalising forgets of numbers. -/
theorem canonicalJson_eq_iff (x y : Value) :
    canonicalJson fmt x = canonicalJson fmt y ↔
      Doc.Same (fun a b => normalizeNumber a = normalizeNumber b) x.doc y.doc := by
  rw [canonicalJson, canonicalJson, (Doc.render_injective hfmt.numberText).eq_iff, sortKeysUtf16,
    sortKeysUtf16, normalizeValue, normalizeValue,
    Doc.sortKeys_eq_iff utf16_injective (Doc.uniqueKeys_mapNum _ x.unique)
      (Doc.uniqueKeys_mapNum _ y.unique)]
  exact Doc.same_mapNum _ _ x.doc y.doc

theorem canonicalJson_eq_iff_equal {x : Value} (hx : ∀ n ∈ x.doc.numbers, ¬ n.AtEdge) (y : Value) :
    canonicalJson fmt x = canonicalJson fmt y ↔ x.Equal y := by
  rw [canonicalJson_eq_iff hfmt]
  exact Doc.same_congr x.doc (fun n hn => normalizeNumber_eq_iff (hx n hn)) y.doc

/-- Replacing one number at the edge by what breaks it there breaks the document. -/
theorem exists_breaking_value {x : Value} (hx : x.Integral) {a : Number} (ha : a ∈ x.doc.numbers)
    (hedge : a.AtEdge) :
    ∃ y : Value, y.Integral ∧ ¬ (canonicalJson fmt x = canonicalJson fmt y ↔ x.Equal y) := by
  rcases exists_breaking hedge with ⟨b, hb, hbreak⟩
  let swap (n : Number) : Number := if n = a then b else n
  have hswap : swap a = b := if_pos rfl
  -- Comparing with the other document is comparing the two numbers.
  have hone : ∀ {β : Type} (g : Number → β),
      Doc.Same (fun m n => g m = g n) x.doc (x.mapNum swap).doc ↔ g a = g b := by
    intro β g
    refine (Doc.same_mapNum_self x.unique).trans ⟨fun h => hswap ▸ h a ha, fun h n _ => ?_⟩
    by_cases hn : n = a
    · rw [hn, hswap, h]
    · rw [show swap n = n from if_neg hn]
  refine ⟨x.mapNum swap, ?_, ?_⟩
  · intro m hm
    rcases (Doc.mem_numbers_mapNum _).1 hm with ⟨n, hn, rfl⟩
    by_cases hna : n = a
    · rw [hna, hswap]
      exact hb
    · rw [show swap n = n from if_neg hna]
      exact hx n hn
  · rw [canonicalJson_eq_iff hfmt, Value.Equal, hone, hone]
    exact hbreak

/-- Canonical JSON identifies a value exactly, and its digest is the digest of no other, if and only if none
of its numbers is at the edge. -/
theorem canonical_identifies_iff {sha256Hex : Bytes → String} (hsha : Function.Injective sha256Hex)
    {x : Value} (hx : x.Integral) :
    (∀ y : Value, y.Integral →
        (canonicalJson fmt x = canonicalJson fmt y ↔ x.Equal y) ∧
          (computeDigest fmt sha256Hex x = computeDigest fmt sha256Hex y → x.Equal y)) ↔
      ∀ n ∈ x.doc.numbers, ¬ n.AtEdge := by
  constructor
  · intro h n hn hedge
    rcases exists_breaking_value hfmt hx hn hedge with ⟨y, hy, hbreak⟩
    exact hbreak (h y hy).1
  · intro h y _
    have hsame := canonicalJson_eq_iff_equal hfmt h y
    exact ⟨hsame, fun hdigest => hsame.1 (hsha hdigest)⟩

end Documents

/-- A document that is one number. -/
def Value.ofNumber (n : Number) : Value where
  doc := .num n
  unique := trivial

/-- `9223372036854775807` and `9223372036854775808.0` have one canonical text and one digest. -/
theorem canonical_collision_at_two_pow_63 :
    let x := Value.ofNumber (.int (2 ^ 63 - 1) (by decide))
    let y := Value.ofNumber (.float twoPow63)
    x.Integral ∧ y.Integral ∧ ¬ x.Equal y ∧ ∀ fmt sha256Hex,
      canonicalJson fmt x = canonicalJson fmt y ∧
        computeDigest fmt sha256Hex x = computeDigest fmt sha256Hex y := by
  have htext : ∀ fmt, canonicalJson fmt (.ofNumber (.int (2 ^ 63 - 1) (by decide))) =
      canonicalJson fmt (.ofNumber (.float twoPow63)) := by
    intro fmt
    simp only [canonicalJson, Value.ofNumber, normalizeValue, Doc.mapNum, normalizeNumber_twoPow63]
    rfl
  refine ⟨?_, ?_, ?_, ?_⟩
  · intro n hn
    obtain rfl := List.mem_singleton.1 hn
    rfl
  · intro n hn
    obtain rfl := List.mem_singleton.1 hn
    rw [Number.Integral, Number.toInt?, toInt?_twoPow63]
    rfl
  · intro h
    have hsame : (Number.float twoPow63).toInt? = some (2 ^ 63 - 1) :=
      (units_eq_units_iff (a := .int (2 ^ 63 - 1) (by decide)) rfl).1 h
    exact float_ne_maxI64 twoPow63 hsame
  · intro fmt sha256Hex
    exact ⟨htext fmt, congrArg sha256Hex (htext fmt)⟩

/-! ## A value away from the edge -/

/-- The digits of a float and what ends them: integers get a point, the others are written by their
magnitude. -/
def sampleDigits (f : F64) : Nat × UInt8 :=
  if f.magnitude % F64.one = 0 then (f.magnitude / F64.one, 46) else (f.magnitude, 101)

/-- A way of writing floats that can be read back, `1.0` as `1.0`. -/
def sampleText (f : F64) : Bytes :=
  (if f.negative then [45] else []) ++ (digitBytes 10 (sampleDigits f).1 ++ [(sampleDigits f).2, 48])

theorem sampleDigits_mark (f : F64) : (sampleDigits f).2 = 46 ∨ (sampleDigits f).2 = 101 := by
  unfold sampleDigits
  split
  · exact .inl rfl
  · exact .inr rfl

theorem magnitude_eq_of_sampleDigits {f g : F64} (h : sampleDigits f = sampleDigits g) :
    f.magnitude = g.magnitude := by
  have hmark : (46 : UInt8) ≠ 101 := by decide
  unfold sampleDigits at h
  split at h <;> split at h
  · next hf hg =>
    rw [← Nat.div_add_mod f.magnitude F64.one, ← Nat.div_add_mod g.magnitude F64.one, hf, hg,
      (Prod.mk.inj h).1]
  · exact absurd (Prod.mk.inj h).2 hmark
  · exact absurd (Prod.mk.inj h).2.symm hmark
  · exact (Prod.mk.inj h).1

theorem sampleText_injective : Function.Injective sampleText := by
  intro f g h
  have hhead : ∀ (n : Nat) (r r' : Bytes), 45 :: r ≠ digitBytes 10 n ++ r' := by
    intro n r r' heq
    rcases List.exists_cons_of_ne_nil (digitBytes_ne_nil (b := 10) n) with ⟨d, ds, hd⟩
    rw [hd, List.cons_append] at heq
    have hdigit := Json.isDigit_of_mem_digitBytes (n := n) (x := d) (by simp [hd])
    rw [← (List.cons.inj heq).1] at hdigit
    exact absurd hdigit (by decide)
  have hparts : f.negative = g.negative ∧
      digitBytes 10 (sampleDigits f).1 ++ [(sampleDigits f).2, 48] =
      digitBytes 10 (sampleDigits g).1 ++ [(sampleDigits g).2, 48] := by
    unfold sampleText at h
    cases hf : f.negative <;> cases hg : g.negative <;> rw [hf, hg] at h
    · exact ⟨rfl, h⟩
    · exact absurd h.symm (hhead _ _ _)
    · exact absurd h (hhead _ _ _)
    · exact ⟨rfl, (List.cons.inj h).2⟩
  rcases List.append_inj' hparts.2 rfl with ⟨hdigits, hmark⟩
  have hnat : (sampleDigits f).1 = (sampleDigits g).1 := by
    rw [← readNat_digitBytes (b := 10) (by decide) (by decide) (sampleDigits f).1, hdigits,
      readNat_digitBytes (by decide) (by decide)]
  have hmag := magnitude_eq_of_sampleDigits (Prod.ext hnat (List.cons.inj hmark).1)
  cases f
  cases g
  simpa using ⟨hparts.1, hmag⟩

theorem sampleText_floatText : FloatText sampleText where
  mem := by
    intro f b hb
    rcases List.mem_append.1 hb with hsign | hrest
    · split at hsign
      · obtain rfl := List.mem_singleton.1 hsign
        decide
      · cases hsign
    · rcases List.mem_append.1 hrest with hdigit | hend
      · simp [Doc.isNumByte, Json.isDigit_of_mem_digitBytes hdigit]
      · have hmarks : b = 46 ∨ b = 101 ∨ b = 48 := by
          rcases sampleDigits_mark f with hmark | hmark <;> simp [hmark] at hend <;> tauto
        rcases hmarks with rfl | rfl | rfl <;> decide
  marked := by
    intro f
    unfold sampleText
    rcases sampleDigits_mark f with hmark | hmark <;> simp [hmark]
  injective := sampleText_injective

/-- The float `1.0`. -/
def floatOne : F64 where
  negative := false
  magnitude := F64.one
  representable := ⟨1, by decide, F64.scale, by decide, by rw [Nat.one_mul, F64.one]⟩

theorem toInt?_floatOne : floatOne.toInt? = some 1 := by
  rw [F64.toInt?_eq_some, Int.one_mul]
  rfl

/-- The document with one member `a`, the float `1.0`. -/
def sampleValue : Value where
  doc := .obj [("a", .num (.float floatOne))]
  unique := by simp

theorem sampleValue_numbers {n : Number} (hn : n ∈ sampleValue.doc.numbers) : n.toInt? = some 1 := by
  obtain rfl : n = .float floatOne := by
    simpa [sampleValue, Doc.numbers, Doc.numbersMembers] using hn
  exact toInt?_floatOne

/-- The SHA-256 digest of its canonical text. -/
def sampleDigest : Bytes → String :=
  tableDigest [(utf8 "\x7b\"a\":1\x7d",
    "015abd7f5cc57a2dd94b7590f04ad8084273905ee33ec5cebeae62276a97f862")]

theorem sampleValue_away {n : Number} (hn : n ∈ sampleValue.doc.numbers) : ¬ n.AtEdge := by
  rintro ⟨m, hm, hedge⟩
  rw [sampleValue_numbers hn, Option.some.injEq] at hm
  subst hm
  unfold IsEdge at hedge
  omega

/-- It is away from the edge, and so identified exactly. -/
theorem canonical_identifies_sampleValue :
    (∀ n ∈ sampleValue.doc.numbers, ¬ n.AtEdge) ∧
      ∀ y : Value, y.Integral →
        (canonicalJson sampleText sampleValue = canonicalJson sampleText y ↔ sampleValue.Equal y) ∧
          (computeDigest sampleText sampleDigest sampleValue =
            computeDigest sampleText sampleDigest y → sampleValue.Equal y) := by
  have hintegral : sampleValue.Integral := by
    intro n hn
    rw [Number.Integral, sampleValue_numbers hn]
    rfl
  have hsha : Function.Injective sampleDigest :=
    tableDigest_injective (by decide +kernel) (by decide +kernel)
  exact ⟨fun _ => sampleValue_away,
    (canonical_identifies_iff sampleText_floatText hsha hintegral).2 fun _ => sampleValue_away⟩

example : canonicalJson sampleText sampleValue = utf8 "\x7b\"a\":1\x7d" := by
  decide +kernel

end Domain
end Aivcs
