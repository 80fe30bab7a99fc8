import Mathlib.Algebra.Order.Ring.Int

/-!
# AgeCutoff — now minus a number of days, as a date library computes it

The day count is an unsigned word that is read as a signed one.  A duration of days is kept in
milliseconds and must fit a signed word, and a date must stay within the library's range; otherwise the
computation is `none`.

* `cutoff_of_fits`, `cutoff_of_not_fits` — when there is a cutoff, and which;
* `cutoffTime_le` — a longer time goes further back, unless only the longer one is read as negative.
-/

namespace Aivcs
namespace Lib

/-- The dates there are, in nanoseconds. -/
structure DateRange where
  min : Int
  max : Int
  deriving DecidableEq

def nanosPerDay : Int := 86400 * 1000000000

def millisPerDay : Int := 86400 * 1000

/-- A 64-bit word read as a signed one. -/
def asI64 (n : UInt64) : Int :=
  if n.toNat < 2 ^ 63 then n.toNat else n.toNat - 2 ^ 64

/-- `Duration::days`. -/
def durationDays (days : Int) : Option Int :=
  if -(2 ^ 63 - 1) ≤ days * millisPerDay ∧ days * millisPerDay ≤ 2 ^ 63 - 1 then
    some (days * nanosPerDay)
  else
    none

/-- A date minus a duration. -/
def DateRange.sub (range : DateRange) (date duration : Int) : Option Int :=
  if range.min ≤ date - duration ∧ date - duration ≤ range.max then some (date - duration) else none

/-- `now - Duration::days(max_age_days as i64)`. -/
def cutoff (range : DateRange) (now : Int) (maxAgeDays : UInt64) : Option Int :=
  match durationDays (asI64 maxAgeDays) with
  | none => none
  | some duration => range.sub now duration

/-- The date so many days ago, without the limits of the library. -/
def cutoffTime (now : Int) (maxAgeDays : UInt64) : Int :=
  now - asI64 maxAgeDays * nanosPerDay

/-- The days fit a duration and the date is in range. -/
structure CutoffFits (range : DateRange) (now : Int) (maxAgeDays : UInt64) : Prop where
  duration : -(2 ^ 63 - 1) ≤ asI64 maxAgeDays * millisPerDay ∧ asI64 maxAgeDays * millisPerDay ≤ 2 ^ 63 - 1
  date : range.min ≤ cutoffTime now maxAgeDays ∧ cutoffTime now maxAgeDays ≤ range.max

section Cutoff

variable {range : DateRange} {now : Int} {days days' : UInt64}

theorem cutoff_of_fits (h : CutoffFits range now days) :
    cutoff range now days = some (cutoffTime now days) := by
  rw [cutoff, durationDays, if_pos h.duration]
  exact if_pos h.date

theorem cutoff_of_not_fits (h : ¬ CutoffFits range now days) : cutoff range now days = none := by
  rw [cutoff, durationDays]
  by_cases hduration : -(2 ^ 63 - 1) ≤ asI64 days * millisPerDay ∧ asI64 days * millisPerDay ≤ 2 ^ 63 - 1
  · rw [if_pos hduration]
    exact if_neg fun hdate => h ⟨hduration, hdate⟩
  · rw [if_neg hduration]

/-- The signed reading keeps the order but for the words it reads as negative. -/
theorem asI64_le (hle : days ≤ days') (h : ¬ (days.toNat < 2 ^ 63 ∧ 2 ^ 63 ≤ days'.toNat)) :
    asI64 days ≤ asI64 days' := by
  have hle' := UInt64.le_iff_toNat_le.1 hle
  unfold asI64
  split <;> split <;> omega

theorem cutoffTime_le (hle : days ≤ days') (h : ¬ (days.toNat < 2 ^ 63 ∧ 2 ^ 63 ≤ days'.toNat)) :
    cutoffTime now days' ≤ cutoffTime now days := by
  have hdays := asI64_le hle h
  have hprod : asI64 days * nanosPerDay ≤ asI64 days' * nanosPerDay :=
    Int.mul_le_mul_of_nonneg_right hdays (by decide)
  exact Int.sub_le_sub_left hprod now

end Cutoff

/-! ## A limit that may be missing -/

/-- The date lies before the cutoff, if there is one. -/
def isAged (now : Int) (maxAgeDays : Option UInt64) (date : Int) : Bool :=
  match maxAgeDays with
  | none => false
  | some days => decide (date < cutoffTime now days)

/-- The days, if there are any, have a cutoff. -/
def AgeFits (range : DateRange) (now : Int) (maxAgeDays : Option UInt64) : Prop :=
  ∀ days, maxAgeDays = some days → CutoffFits range now days

theorem ageFits_some {range : DateRange} {now : Int} {days : UInt64} (h : CutoffFits range now days) :
    AgeFits range now (some days) := by
  intro days' hsome
  cases hsome
  exact h

/-! ## What is older than the cutoff -/

section Aged

variable {α : Type} (createdAt : α → Int)

/-- Nothing is older than the longer time's cutoff but not the shorter one's. -/
def NoneBetween (now : Int) (days days' : UInt64) (xs : α → Prop) : Prop :=
  ¬ (days.toNat < 2 ^ 63 ∧ 2 ^ 63 ≤ days'.toNat ∧
    ∃ x, xs x ∧ cutoffTime now days ≤ createdAt x ∧ createdAt x < cutoffTime now days')

variable {createdAt} {now : Int} {days days' : UInt64} {xs : α → Prop}

/-- Keeping things longer leaves nothing out that the shorter time keeps, exactly when nothing lies
between the cutoffs. -/
theorem aged_subset_iff (hle : days ≤ days') :
    (∀ x, xs x → createdAt x < cutoffTime now days' → createdAt x < cutoffTime now days) ↔
      NoneBetween createdAt now days days' xs := by
  constructor
  · rintro h ⟨_, _, x, hx, hkept, haged⟩
    exact absurd (h x hx haged) (Int.not_lt.2 hkept)
  · intro h x hx haged
    by_cases hsign : days.toNat < 2 ^ 63 ∧ 2 ^ 63 ≤ days'.toNat
    · by_contra hkept
      exact h ⟨hsign.1, hsign.2, x, hx, Int.not_lt.1 hkept, haged⟩
    · exact Int.lt_of_lt_of_le haged (cutoffTime_le hle hsign)

variable {β : Type} {range : DateRange}

/-- Both times have an answer, and what the longer one removes the shorter one removes too. -/
def KeepsMore (removed removed' : Option (List β)) : Prop :=
  ∃ l l', removed = some l ∧ removed' = some l' ∧ ∀ x ∈ l', x ∈ l

/-- The two cutoffs exist, and no wrapped one lies after what it should keep. -/
structure LongerIsSafe (range : DateRange) (createdAt : α → Int) (now : Int) (days days' : UInt64)
    (xs : α → Prop) : Prop where
  fits : CutoffFits range now days
  fits' : CutoffFits range now days'
  noneBetween : NoneBetween createdAt now days days' xs

theorem fits_of_isSome {aged : Int → List β} {l : List β} (h : (cutoff range now days).map aged = some l) :
    CutoffFits range now days := by
  by_contra hnot
  rw [cutoff_of_not_fits hnot] at h
  cases h

/-- An operation that computes the cutoff and removes what is older. -/
theorem keepsMore_iff {aged : Int → List β} (hle : days ≤ days')
    (haged : ∀ c c', (∀ b ∈ aged c', b ∈ aged c) ↔ ∀ x, xs x → createdAt x < c' → createdAt x < c) :
    KeepsMore ((cutoff range now days).map aged) ((cutoff range now days').map aged) ↔
      LongerIsSafe range createdAt now days days' xs := by
  constructor
  · rintro ⟨l, l', hl, hl', hsub⟩
    have hfits := fits_of_isSome hl
    have hfits' := fits_of_isSome hl'
    rw [cutoff_of_fits hfits] at hl
    rw [cutoff_of_fits hfits'] at hl'
    cases hl
    cases hl'
    exact ⟨hfits, hfits', (aged_subset_iff hle).1 ((haged _ _).1 hsub)⟩
  · rintro ⟨hfits, hfits', hnone⟩
    refine ⟨aged (cutoffTime now days), aged (cutoffTime now days'), ?_, ?_, ?_⟩
    · rw [cutoff_of_fits hfits]
      rfl
    · rw [cutoff_of_fits hfits']
      rfl
    · exact (haged _ _).2 ((aged_subset_iff hle).2 hnone)

end Aged

end Lib
end Aivcs
