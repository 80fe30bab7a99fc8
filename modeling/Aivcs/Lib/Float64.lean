import Mathlib.Algebra.Order.Ring.Int
import Mathlib.Tactic.Positivity
import Mathlib.Tactic.Ring

/-!
# Float64 — the finite binary64 numbers, exactly

A finite float is a sign and a magnitude, and every magnitude is a whole number of the smallest positive
float, `2⁻¹⁰⁷⁴`.  So values are integers in that unit and comparing them is comparing integers: nothing
here rounds.

* `toInt?` — the integer a float is, if it is one;
* `exists_toInt?_iff` — the integers between `2⁶³` and `2⁶⁴` that are floats are the multiples of `2¹¹`.
-/

namespace Aivcs
namespace Lib

/-- A finite float; the magnitude, in units of `2⁻¹⁰⁷⁴`, has 53 significant bits. -/
structure F64 where
  negative : Bool
  magnitude : Nat
  representable : ∃ m < 2 ^ 53, ∃ s ≤ 2045, magnitude = m * 2 ^ s

namespace F64

instance : DecidableEq F64 := fun f g =>
  decidable_of_iff (f.negative = g.negative ∧ f.magnitude = g.magnitude) (by
    cases f
    cases g
    simp)

/-- The unit is `2` to the minus this. -/
def scale : Nat := 1074

/-- One, in units. -/
def one : Nat := 2 ^ scale

/-- The value in units: both zeros are zero. -/
def units (f : F64) : Int :=
  if f.negative then -f.magnitude else f.magnitude

/-- The integer that the float is. -/
def toInt? (f : F64) : Option Int :=
  if f.units % one = 0 then some (f.units / one) else none

theorem units_of_positive {f : F64} (h : f.negative = false) : f.units = f.magnitude := by
  rw [units, h, if_neg Bool.false_ne_true]

theorem units_of_negative {f : F64} (h : f.negative = true) : f.units = -f.magnitude := by
  rw [units, h, if_pos rfl]

theorem one_pos : 0 < one :=
  Nat.pow_pos (by decide)

theorem two_pow_add_scale (k : Nat) : 2 ^ (k + scale) = 2 ^ k * one :=
  Nat.pow_add 2 k scale

theorem toInt?_eq_some {f : F64} {n : Int} : f.toInt? = some n ↔ f.units = n * one := by
  have hone : (one : Int) ≠ 0 := by exact_mod_cast one_pos.ne'
  unfold toInt?
  split
  · next hmod =>
    rw [Option.some.injEq]
    constructor
    · rintro rfl
      exact (Int.ediv_mul_cancel (Int.dvd_of_emod_eq_zero hmod)).symm
    · intro h
      rw [h, Int.mul_ediv_cancel n hone]
  · next hmod =>
    constructor
    · intro h
      cases h
    · intro h
      exact absurd (by rw [h]; exact Int.mul_emod_left n one) hmod

/-- Floats other than zero are determined by their value. -/
theorem eq_of_units {f g : F64} (h : f.units = g.units) (hne : f.units ≠ 0) : f = g := by
  have hparts : f.negative = g.negative ∧ f.magnitude = g.magnitude := by
    cases hf : f.negative <;> cases hg : g.negative <;> simp [units, hf, hg] at h hne ⊢ <;> omega
  cases f
  cases g
  simpa using hparts

/-- The float that is a multiple of `2¹¹` below `2⁶⁴`. -/
def ofMultiple (k : Nat) (hk : k < 2 ^ 53) : F64 :=
  ⟨false, k * 2 ^ (11 + scale), k, hk, 11 + scale, by decide, rfl⟩

theorem toInt?_ofMultiple {k : Nat} (hk : k < 2 ^ 53) :
    (ofMultiple k hk).toInt? = some ((k : Int) * 2048) := by
  have hunits : (ofMultiple k hk).units = ((k * 2 ^ (11 + scale) : Nat) : Int) := rfl
  rw [toInt?_eq_some, hunits, two_pow_add_scale, ← Nat.mul_assoc]
  push_cast
  rfl

/-- A float has 53 bits: an integer from `2⁵²⁺ʲ` on that is a float has `2ʲ` as a factor. -/
theorem dvd_of_toInt? {f : F64} {n : Int} (h : f.toInt? = some n) {j : Nat}
    (hn : 2 ^ (52 + j) ≤ n) : (2 : Int) ^ j ∣ n := by
  obtain ⟨n, rfl⟩ : ∃ n' : Nat, n = n' :=
    ⟨n.toNat, (Int.toNat_of_nonneg (le_trans (by positivity) hn)).symm⟩
  have hn : 2 ^ (52 + j) ≤ n := by exact_mod_cast hn
  rw [toInt?_eq_some] at h
  have hmag : f.magnitude = n * one := by
    cases hsign : f.negative with
    | false =>
        rw [units_of_positive hsign, ← Int.natCast_mul] at h
        exact Int.ofNat.inj h
    | true =>
        rw [units_of_negative hsign, ← Int.natCast_mul] at h
        omega
  rcases f.representable with ⟨m, hm, s, _, hms⟩
  -- With a smaller exponent 53 bits would not reach `2⁵²⁺ʲ`.
  have hs : j + scale ≤ s := by
    by_contra hlt
    have hbig : 2 * (n * one) < 2 * (2 ^ (52 + j) * one) := by
      calc
        2 * (n * one) = m * 2 ^ (s + 1) := by rw [← hmag, hms, Nat.pow_succ]; ring
        _ ≤ m * 2 ^ (j + scale) :=
            Nat.mul_le_mul_left m (Nat.pow_le_pow_right (by decide) (by omega))
        _ < 2 ^ 53 * 2 ^ (j + scale) := Nat.mul_lt_mul_of_pos_right hm (Nat.pow_pos (by decide))
        _ = 2 * (2 ^ (52 + j) * one) := by rw [two_pow_add_scale, Nat.pow_add 2 52 j]; ring
    have hsmall : n < 2 ^ (52 + j) := Nat.lt_of_mul_lt_mul_right (Nat.lt_of_mul_lt_mul_left hbig)
    exact absurd hn (Nat.not_le.2 hsmall)
  obtain ⟨i, rfl⟩ : ∃ i, s = i + j + scale := ⟨s - (j + scale), by omega⟩
  have hfactor : n * one = (2 ^ j * (m * 2 ^ i)) * one := by
    calc
      n * one = m * 2 ^ (i + j + scale) := by rw [← hmag, hms]
      _ = m * (2 ^ i * 2 ^ j * one) := by rw [two_pow_add_scale, Nat.pow_add]
      _ = (2 ^ j * (m * 2 ^ i)) * one := by ring
  have hn' : n = 2 ^ j * (m * 2 ^ i) := Nat.eq_of_mul_eq_mul_right one_pos hfactor
  exact ⟨(m * 2 ^ i : Nat), by rw [hn']; push_cast; ring⟩

/-- The integers from `2⁶³` to `2⁶⁴` that are floats. -/
theorem exists_toInt?_iff {n : Int} (hn : 2 ^ 63 ≤ n) (hn' : n < 2 ^ 64) :
    (∃ f : F64, f.toInt? = some n) ↔ (2048 : Int) ∣ n := by
  constructor
  · rintro ⟨f, hf⟩
    exact dvd_of_toInt? hf (j := 11) hn
  · rintro ⟨k, rfl⟩
    obtain ⟨k, rfl⟩ : ∃ k' : Nat, k = k' := ⟨k.toNat, by omega⟩
    refine ⟨ofMultiple k (by omega), ?_⟩
    rw [toInt?_ofMultiple, Int.mul_comm]

end F64

end Lib
end Aivcs
