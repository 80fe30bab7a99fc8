import Mathlib.Data.Nat.Basic
import Mathlib.Algebra.Group.Nat.Defs

/-!
# Checked — arithmetic of unsigned machine words, `none` where it overflows

An operation is done on the natural numbers and its result put back into a word, if it fits.
-/

namespace Aivcs
namespace Lib

/-- A result of 64-bit arithmetic. -/
def checked64 (n : Nat) : Option UInt64 :=
  if n < 2 ^ 64 then some (UInt64.ofNat n) else none

/-- A result of 32-bit arithmetic. -/
def checked32 (n : Nat) : Option UInt32 :=
  if n < 2 ^ 32 then some (UInt32.ofNat n) else none

variable {n : Nat}

theorem checked64_of_lt (h : n < 2 ^ 64) : checked64 n = some (UInt64.ofNat n) :=
  if_pos h

theorem checked64_of_le (h : 2 ^ 64 ≤ n) : checked64 n = none :=
  if_neg (Nat.not_lt.2 h)

theorem checked64_eq_none : checked64 n = none ↔ 2 ^ 64 ≤ n := by
  rw [← Nat.not_lt]
  by_cases h : n < 2 ^ 64
  · rw [checked64_of_lt h]
    exact iff_of_false (Option.some_ne_none _) (not_not_intro h)
  · exact iff_of_true (checked64_of_le (Nat.not_lt.1 h)) h

theorem checked64_eq_some {w : UInt64} : checked64 n = some w ↔ w.toNat = n := by
  unfold checked64
  by_cases h : n < 2 ^ 64
  · rw [if_pos h, Option.some.injEq]
    constructor
    · rintro rfl
      exact UInt64.toNat_ofNat_of_lt' h
    · rintro rfl
      exact UInt64.ofNat_toNat
  · rw [if_neg h]
    constructor
    · intro hnone
      cases hnone
    · rintro rfl
      exact absurd w.toNat_lt h

theorem checked32_of_lt (h : n < 2 ^ 32) : checked32 n = some (UInt32.ofNat n) :=
  if_pos h

theorem checked32_of_le (h : 2 ^ 32 ≤ n) : checked32 n = none :=
  if_neg (Nat.not_lt.2 h)

theorem checked32_eq_none : checked32 n = none ↔ 2 ^ 32 ≤ n := by
  rw [← Nat.not_lt]
  by_cases h : n < 2 ^ 32
  · rw [checked32_of_lt h]
    exact iff_of_false (Option.some_ne_none _) (not_not_intro h)
  · exact iff_of_true (checked32_of_le (Nat.not_lt.1 h)) h

theorem checked32_eq_some {w : UInt32} : checked32 n = some w ↔ w.toNat = n := by
  unfold checked32
  by_cases h : n < 2 ^ 32
  · rw [if_pos h, Option.some.injEq]
    constructor
    · rintro rfl
      exact UInt32.toNat_ofNat_of_lt' h
    · rintro rfl
      exact UInt32.ofNat_toNat
  · rw [if_neg h]
    constructor
    · intro hnone
      cases hnone
    · rintro rfl
      exact absurd w.toNat_lt h

end Lib
end Aivcs
