import Mathlib.Tactic.Ring
import Aivcs.Lib.Text

/-!
# Decimal — numerals and their values

A numeral is a list of ASCII digits.  Its value is `Nat.ofDigitChars 10`; two numerals without leading
zeros compare by length and then as texts in the way their values compare, whatever their length.
-/

namespace Aivcs
namespace Lib

/-- The value of a numeral. -/
def decimal (ds : List Char) : Nat :=
  Nat.ofDigitChars 10 ds 0

/-- Drop the leading zeros (`trim_start_matches('0')`). -/
def dropZeros (ds : List Char) : List Char :=
  ds.dropWhile fun c => c = '0'

/-- ASCII digits only. -/
def Digits (ds : List Char) : Prop :=
  ∀ c ∈ ds, c.isDigit = true

instance (ds : List Char) : Decidable (Digits ds) :=
  decidable_of_iff (ds.all Char.isDigit = true) List.all_eq_true

/-- ASCII digits only, and at least one. -/
def Numeral (ds : List Char) : Prop :=
  ds ≠ [] ∧ Digits ds

instance (ds : List Char) : Decidable (Numeral ds) :=
  decidable_of_iff (ds.isEmpty = false ∧ Digits ds) (and_congr_left' List.isEmpty_eq_false_iff)

/-! ## Values -/

section Values

variable {c : Char} {ds : List Char}

theorem Digits.tail (h : Digits (c :: ds)) : Digits ds :=
  fun d hd => h d (List.mem_cons_of_mem c hd)

theorem Digits.head (h : Digits (c :: ds)) : c.isDigit = true :=
  h c List.mem_cons_self

theorem digit_bounds (h : c.isDigit = true) : '0'.toNat ≤ c.toNat ∧ c.toNat ≤ '0'.toNat + 9 :=
  Char.isDigit_iff_toNat.mp h

theorem isWhitespace_of_isDigit (h : c.isDigit = true) : isWhitespace c = false := by
  have hbounds := digit_bounds h
  have hzero : '0'.toNat = 48 := rfl
  simp [isWhitespace]
  omega

theorem decimal_cons (c : Char) (ds : List Char) :
    decimal (c :: ds) = 10 ^ ds.length * (c.toNat - '0'.toNat) + decimal ds := by
  rw [decimal, Nat.ofDigitChars_cons, Nat.ofDigitChars_eq_ofDigitChars_zero]
  simp [decimal]

theorem decimal_lt (h : Digits ds) : decimal ds < 10 ^ ds.length := by
  induction ds with
  | nil =>
      simp [decimal]
  | cons c ds ih =>
      have htail := ih h.tail
      have hdigit := digit_bounds h.head
      calc decimal (c :: ds) = 10 ^ ds.length * (c.toNat - '0'.toNat) + decimal ds := decimal_cons c ds
        _ < 10 ^ ds.length * (c.toNat - '0'.toNat) + 10 ^ ds.length := by omega
        _ = 10 ^ ds.length * (c.toNat - '0'.toNat + 1) := by ring
        _ ≤ 10 ^ ds.length * 10 := Nat.mul_le_mul_left _ (by omega)
        _ = 10 ^ (c :: ds).length := by rw [List.length_cons, Nat.pow_succ]

/-- A first digit that is not zero gives the value its length. -/
theorem pow_le_decimal (h : Digits (c :: ds)) (hc : c ≠ '0') : 10 ^ ds.length ≤ decimal (c :: ds) := by
  have hdigit := digit_bounds h.head
  have hcode : c.toNat ≠ '0'.toNat := fun heq => hc (Char.toNat_inj.mp heq)
  calc 10 ^ ds.length = 10 ^ ds.length * 1 := (Nat.mul_one _).symm
    _ ≤ 10 ^ ds.length * (c.toNat - '0'.toNat) := Nat.mul_le_mul_left _ (by omega)
    _ ≤ decimal (c :: ds) := by
        rw [decimal_cons]
        exact Nat.le_add_right _ _

theorem decimal_dropZeros (ds : List Char) : decimal (dropZeros ds) = decimal ds := by
  induction ds with
  | nil =>
      rfl
  | cons c ds ih =>
      by_cases hc : c = '0'
      · rw [dropZeros, List.dropWhile_cons_of_pos (by simpa using hc), decimal_cons, hc, Nat.sub_self,
          Nat.mul_zero, Nat.zero_add]
        exact ih
      · rw [dropZeros, List.dropWhile_cons_of_neg (by simpa using hc)]

theorem Digits.dropZeros (h : Digits ds) : Digits (dropZeros ds) :=
  fun c hc => h c ((List.dropWhile_suffix _).mem hc)

theorem head_dropZeros (ds : List Char) : ∀ c ∈ (dropZeros ds).head?, c ≠ '0' := by
  intro c hc
  simpa using dropWhile_head (fun c => decide (c = '0')) ds c hc

end Values

/-! ## Comparison -/

section Comparison

variable {xs ys : List Char}

theorem compare_char (c d : Char) : compare c d = compare c.toNat d.toNat := by
  have hlt : c < d ↔ c.toNat < d.toNat := Char.lt_def.trans UInt32.lt_iff_toNat_lt
  have heq : c = d ↔ c.toNat = d.toNat := Char.toNat_inj.symm
  calc compare c d = compareOfLessAndEq c d := rfl
    _ = compareOfLessAndEq c.toNat d.toNat := by simp only [compareOfLessAndEq, hlt, heq]
    _ = compare c.toNat d.toNat := rfl

/-- A larger digit outweighs what follows it. -/
theorem place_lt {p d d' r r' : Nat} (hd : d < d') (hr : r < p) : p * d + r < p * d' + r' :=
  calc p * d + r < p * d + p := Nat.add_lt_add_left hr _
    _ = p * (d + 1) := rfl
    _ ≤ p * d' := Nat.mul_le_mul_left p hd
    _ ≤ p * d' + r' := Nat.le_add_right _ _

theorem compare_add_left (k m n : Nat) : compare (k + m) (k + n) = compare m n := by
  simp only [Nat.compare_eq_ite_lt, Nat.add_lt_add_iff_left]

/-- Texts of one length compare as their values: the first digit that differs decides both. -/
theorem compare_of_length_eq (hx : Digits xs) (hy : Digits ys) (hlen : xs.length = ys.length) :
    compare xs ys = compare (decimal xs) (decimal ys) := by
  induction xs generalizing ys with
  | nil =>
      rw [List.length_eq_zero_iff.mp hlen.symm]
      rfl
  | cons c xs ih =>
      cases ys with
      | nil =>
          cases hlen
      | cons d ys =>
          have hlen' : xs.length = ys.length := Nat.succ.inj hlen
          have hc := digit_bounds hx.head
          have hd := digit_bounds hy.head
          have hxs := decimal_lt hx.tail
          have hys := decimal_lt hy.tail
          have hrest := ih hx.tail hy.tail hlen'
          rw [List.compare_cons_cons, compare_char]
          rw [hlen'] at hxs
          -- The first digits decide both comparisons, unless they are the same.
          rcases Nat.lt_trichotomy c.toNat d.toNat with hlt | heq | hgt
          · have hval : decimal (c :: xs) < decimal (d :: ys) := by
              rw [decimal_cons, decimal_cons, hlen']
              exact place_lt (Nat.sub_lt_sub_right hc.1 hlt) hxs
            rw [Nat.compare_eq_lt.mpr hlt, Nat.compare_eq_lt.mpr hval]
            rfl
          · rw [Nat.compare_eq_eq.mpr heq, decimal_cons, decimal_cons, hlen', heq, compare_add_left]
            exact hrest
          · have hval : decimal (d :: ys) < decimal (c :: xs) := by
              rw [decimal_cons, decimal_cons, hlen']
              exact place_lt (Nat.sub_lt_sub_right hd.1 hgt) hys
            rw [Nat.compare_eq_gt.mpr hgt, Nat.compare_eq_gt.mpr hval]
            rfl

/-- Without leading zeros a shorter numeral has a smaller value. -/
theorem decimal_lt_of_length_lt (hx : Digits xs) (hy : Digits ys) (hlead : ∀ d ∈ ys.head?, d ≠ '0')
    (hlen : xs.length < ys.length) : decimal xs < decimal ys := by
  cases ys with
  | nil =>
      cases hlen
  | cons d ys =>
      calc decimal xs < 10 ^ xs.length := decimal_lt hx
        _ ≤ 10 ^ ys.length := Nat.pow_le_pow_right (by decide) (Nat.le_of_lt_succ hlen)
        _ ≤ decimal (d :: ys) := pow_le_decimal hy (hlead d rfl)

/-- Length first, then the texts: the order of the values. -/
theorem compare_dropZeros (hx : Digits xs) (hy : Digits ys) :
    (compare (dropZeros xs).length (dropZeros ys).length).then (compare (dropZeros xs) (dropZeros ys)) =
      compare (decimal xs) (decimal ys) := by
  rw [← decimal_dropZeros xs, ← decimal_dropZeros ys]
  -- The lengths decide, or they are the same and the texts do.
  rcases Nat.lt_trichotomy (dropZeros xs).length (dropZeros ys).length with hlt | heq | hgt
  · have hval := decimal_lt_of_length_lt hx.dropZeros hy.dropZeros (head_dropZeros ys) hlt
    rw [Nat.compare_eq_lt.mpr hlt, Nat.compare_eq_lt.mpr hval]
    rfl
  · rw [Nat.compare_eq_eq.mpr heq, ← compare_of_length_eq hx.dropZeros hy.dropZeros heq]
    rfl
  · have hval := decimal_lt_of_length_lt hy.dropZeros hx.dropZeros (head_dropZeros xs) hgt
    rw [Nat.compare_eq_gt.mpr hgt, Nat.compare_eq_gt.mpr hval]
    rfl

end Comparison

/-! ## Reading a bounded number -/

/-- `parse::<u16>`: a numeral, and a plus sign may stand before it. -/
def parseU16 (cs : List Char) : Option UInt16 :=
  let ds := (cs.dropPrefix? ['+']).getD cs
  if Numeral ds ∧ decimal ds < 2 ^ 16 then some (UInt16.ofNat (decimal ds)) else none

theorem parseU16_of_digits {ds : List Char} (h : Digits ds) :
    parseU16 ds = if ds ≠ [] ∧ decimal ds < 2 ^ 16 then some (UInt16.ofNat (decimal ds)) else none := by
  have hsign : ds.dropPrefix? ['+'] = none := by
    refine Option.eq_none_iff_forall_ne_some.2 fun rest hrest => ?_
    rw [dropPrefix?_iff.1 hrest] at h
    exact absurd (h '+' List.mem_cons_self) (by decide)
  simp only [parseU16, hsign, Option.getD_none, Numeral, h, and_true]

end Lib
end Aivcs
