import Aivcs.State.ReleaseRegistry

/-!
# State.Rollback — what repeated rollbacks do

A rollback appends the entry before the newest one.  Directly after another rollback that entry is
the one the other rollback moved away from, so two in a row undo each other.  `Audited` follows the
calls on one name and remembers which digests have been withdrawn; a rollback makes a withdrawn one
current exactly in that case (`rollback_resurrects_only_after_rollback`).
-/

namespace Aivcs
namespace State

open Aivcs.Lib
open MemoryReleaseRegistry

inductive ReleaseCall where
  | promote (now : Timestamp) (specDigest : ContentDigest) (metadata : ReleaseMetadata)
  | rollback

/-- The registry with what the calls on one name have withdrawn. -/
structure Audited where
  releases : Releases
  /-- the digests a rollback moved `current` away from and that were not promoted since -/
  withdrawn : Finset ContentDigest
  /-- the newest entry was appended by a rollback -/
  rolledBack : Bool

namespace Audited

variable {name : String} {s : Audited} {i : ReleaseCall}

def start : Audited :=
  ⟨∅, ∅, false⟩

/-- What a rollback from `before` to `after` withdraws. -/
def withdraw (withdrawn : Finset ContentDigest) (before : Option ReleaseRecord)
    (after : ReleaseRecord) : Finset ContentDigest :=
  match before with
  | none => withdrawn
  | some c => if c.specDigest = after.specDigest then withdrawn else insert c.specDigest withdrawn

def step (name : String) (s : Audited) : ReleaseCall → Audited
  | .promote now specDigest metadata =>
      ⟨(promote s.releases now name specDigest metadata).2, s.withdrawn.erase specDigest, false⟩
  | .rollback =>
      match MemoryReleaseRegistry.rollback s.releases name with
      | (.error _, releases) => { s with releases := releases }
      | (.ok record, releases) =>
          ⟨releases, withdraw s.withdrawn (current s.releases name) record, true⟩

/-- The call does not make a withdrawn release current. -/
def KeepsWithdrawn (name : String) (s : Audited) (i : ReleaseCall) : Prop :=
  i = .rollback → ∀ record, (MemoryReleaseRegistry.rollback s.releases name).1 = .ok record →
    record.specDigest ∉ s.withdrawn

/-- The call is not a rollback of a rollback that changed the digest. -/
def NotTwice (name : String) (s : Audited) (i : ReleaseCall) : Prop :=
  i = .rollback → s.rolledBack = true → ∀ pre a b, s.releases.entries name = pre ++ [a, b] →
    a.specDigest = b.specDigest

/-- What holds while no withdrawn release has been made current. -/
structure Inv (name : String) (s : Audited) : Prop where
  current_kept : ∀ pre b, s.releases.entries name = pre ++ [b] → b.specDigest ∉ s.withdrawn
  promoted : s.rolledBack = false → ∀ pre a b, s.releases.entries name = pre ++ [a, b] →
    a.specDigest ∉ s.withdrawn
  rolled : s.rolledBack = true → ∀ pre a b, s.releases.entries name = pre ++ [a, b] →
    a.specDigest ≠ b.specDigest → a.specDigest ∈ s.withdrawn

theorem Inv.init (name : String) : Inv name start := by
  have hempty : start.releases.entries name = [] := rfl
  refine ⟨?_, ?_, ?_⟩
  · intro pre b h
    simp [hempty] at h
  · intro _ pre a b h
    simp [hempty] at h
  · intro h
    simp [start] at h

theorem step_promote (now : Timestamp) (d : ContentDigest) (m : ReleaseMetadata) :
    step name s (.promote now d m) =
      ⟨s.releases.push name ⟨name, d, m, now⟩, s.withdrawn.erase d, false⟩ := rfl

theorem current_of_entries {pre : List ReleaseRecord} {b : ReleaseRecord}
    (h : s.releases.entries name = pre ++ [b]) : current s.releases name = some b := by
  rw [current_eq, h, List.getLast?_concat]

theorem step_rollback {pre : List ReleaseRecord} {a b : ReleaseRecord}
    (h : s.releases.entries name = pre ++ [a, b]) :
    step name s .rollback = ⟨s.releases.push name a, withdraw s.withdrawn (some b) a, true⟩ := by
  have hlast : s.releases.entries name = (pre ++ [a]) ++ [b] := by simpa using h
  have hcur : current s.releases name = some b := current_of_entries hlast
  simp only [step, rollback_eq h, hcur]

theorem step_rollback_error (h : (s.releases.entries name).length < 2) :
    step name s .rollback = s := by
  obtain ⟨e, he⟩ := rollback_eq_error h
  simp only [step, he]

/-- A list has at most one element, or a last but one and a last. -/
theorem length_lt_two_or {α : Type} (l : List α) : l.length < 2 ∨ ∃ pre a b, l = pre ++ [a, b] := by
  rcases List.eq_nil_or_concat' l with rfl | ⟨l, b, rfl⟩
  · exact Or.inl (by simp)
  · rcases List.eq_nil_or_concat' l with rfl | ⟨pre, a, rfl⟩
    · exact Or.inl (by simp)
    · exact Or.inr ⟨pre, a, b, by simp⟩

/-- Under the invariant, a rollback makes a withdrawn release current exactly when it follows a
rollback that changed the digest. -/
theorem Inv.keepsWithdrawn_iff (h : Inv name s) : KeepsWithdrawn name s i ↔ NotTwice name s i := by
  rcases length_lt_two_or (s.releases.entries name) with hshort | ⟨pre, a, b, hentries⟩
  · refine iff_of_true ?_ ?_
    · rintro - record hrecord
      obtain ⟨e, he⟩ := rollback_eq_error hshort
      rw [he] at hrecord
      cases hrecord
    · rintro - - pre a b hentries
      rw [hentries, List.length_append] at hshort
      exact absurd hshort (by simp)
  · have hlast : s.releases.entries name = (pre ++ [a]) ++ [b] := by simpa using hentries
    constructor
    · intro hkeeps hi hrolled pre' a' b' hentries'
      have hmem := hkeeps hi a (by rw [rollback_eq hentries])
      have heq : a.specDigest = b.specDigest := by
        by_contra hne
        exact hmem (h.rolled hrolled pre a b hentries hne)
      have hsame : pre ++ [a, b] = pre' ++ [a', b'] := hentries.symm.trans hentries'
      obtain ⟨_, htail⟩ := List.append_inj' hsame rfl
      simp only [List.cons.injEq, and_true] at htail
      rw [← htail.1, ← htail.2]
      exact heq
    · intro hnot hi record hrecord
      rw [rollback_eq hentries, Except.ok.injEq] at hrecord
      subst hrecord
      cases hrolled : s.rolledBack with
      | false =>
          exact h.promoted hrolled pre a b hentries
      | true =>
          rw [hnot hi hrolled pre a b hentries]
          exact h.current_kept _ b hlast

/-- The last two of a list with one more element. -/
theorem concat_eq_append_pair {α : Type} {l pre : List α} {x a b : α}
    (h : l ++ [x] = pre ++ [a, b]) : l = pre ++ [a] ∧ x = b := by
  have hsplit : l ++ [x] = (pre ++ [a]) ++ [b] := by simpa using h
  obtain ⟨hl, hx⟩ := List.append_inj' hsplit rfl
  exact ⟨hl, by simpa using hx⟩

theorem Inv.step (h : Inv name s) (hi : NotTwice name s i) : Inv name (step name s i) := by
  cases i with
  | promote now d m =>
      rw [step_promote]
      refine ⟨?_, ?_, ?_⟩
      · intro pre b hb
        rw [Releases.entries_push_self] at hb
        obtain ⟨_, hb⟩ := List.append_inj' hb rfl
        obtain rfl : (⟨name, d, m, now⟩ : ReleaseRecord) = b := by simpa using hb
        exact Finset.notMem_erase d s.withdrawn
      · intro _ pre a b hab
        rw [Releases.entries_push_self] at hab
        obtain ⟨ha, _⟩ := concat_eq_append_pair hab
        exact fun hmem => h.current_kept pre a ha (Finset.mem_of_mem_erase hmem)
      · intro hfalse
        cases hfalse
  | rollback =>
      rcases length_lt_two_or (s.releases.entries name) with hshort | ⟨pre, a, b, hentries⟩
      · rw [step_rollback_error hshort]
        exact h
      · have hkept : a.specDigest ∉ s.withdrawn :=
          h.keepsWithdrawn_iff.mpr hi rfl a (by rw [rollback_eq hentries])
        have hentries' : (s.releases.push name a).entries name = (pre ++ [a, b]) ++ [a] := by
          rw [Releases.entries_push_self, hentries]
        rw [step_rollback hentries]
        refine ⟨?_, ?_, ?_⟩
        · intro pre' b' hb
          rw [hentries'] at hb
          obtain ⟨_, hb⟩ := List.append_inj' hb rfl
          obtain rfl : a = b' := by simpa using hb
          simp only [withdraw]
          split
          · exact hkept
          · next hne =>
            rw [Finset.mem_insert, not_or]
            exact ⟨fun heq => hne heq.symm, hkept⟩
        · intro hfalse
          cases hfalse
        · intro _ pre' a' b' hab hne
          rw [hentries'] at hab
          obtain ⟨hpre, rfl⟩ := concat_eq_append_pair hab
          have hsplit : (pre ++ [a]) ++ [b] = pre' ++ [a'] := by simpa using hpre
          obtain ⟨_, hb⟩ := List.append_inj' hsplit rfl
          obtain rfl : b = a' := by simpa using hb
          simp [withdraw, hne]

/-! ## Rollbacks in a row -/

/-- Rollbacks in a row alternate between the last two entries. -/
theorem entries_rollbacks (k : Nat) {pre : List ReleaseRecord} {a b : ReleaseRecord}
    (h : s.releases.entries name = pre ++ [a, b]) :
    ∃ pre', pre'.length = pre.length + k ∧
      (after (step name) s (List.replicate k .rollback)).releases.entries name =
        pre' ++ (if k % 2 = 0 then [a, b] else [b, a]) := by
  induction k generalizing s pre a b with
  | zero =>
      exact ⟨pre, rfl, by simpa using h⟩
  | succ k ih =>
      have hnext : (step name s .rollback).releases.entries name = (pre ++ [a]) ++ [b, a] := by
        rw [step_rollback h, Releases.entries_push_self, h]
        simp
      obtain ⟨pre', hlen, hentries⟩ := ih hnext
      refine ⟨pre', by simp [hlen]; omega, ?_⟩
      rw [List.replicate_succ, after_cons, hentries]
      rcases Nat.mod_two_eq_zero_or_one k with hk | hk
      · have hk' : (k + 1) % 2 = 1 := by omega
        simp [hk, hk']
      · have hk' : (k + 1) % 2 = 0 := by omega
        simp [hk, hk']

/-- A promotion: when, what, with which metadata. -/
abbrev Promotion : Type := Timestamp × ContentDigest × ReleaseMetadata

def Promotion.call (p : Promotion) : ReleaseCall :=
  .promote p.1 p.2.1 p.2.2

/-- The entry it appends. -/
def Promotion.record (name : String) (p : Promotion) : ReleaseRecord :=
  ⟨name, p.2.1, p.2.2, p.1⟩

theorem entries_promotions (s : Audited) (ps : List Promotion) :
    (after (step name) s (ps.map Promotion.call)).releases.entries name =
      s.releases.entries name ++ ps.map (Promotion.record name) := by
  induction ps generalizing s with
  | nil =>
      simp
  | cons p ps ih =>
      have hstep : (step name s p.call).releases.entries name =
          s.releases.entries name ++ [p.record name] :=
        Releases.entries_push_self s.releases name _
      rw [List.map_cons, after_cons, ih, hstep]
      simp

/-- `n ≥ 2` promotions and `k` rollbacks: one entry for each call, and the last but one or the last
promotion is current. -/
theorem entries_promotions_rollbacks (ps : List Promotion) (k : Nat) (hps : 2 ≤ ps.length) :
    ∃ pre p, ps[ps.length - 1 - k % 2]? = some p ∧ pre.length + 1 = ps.length + k ∧
      (after (step name) start (ps.map Promotion.call ++ List.replicate k .rollback)
        ).releases.entries name = pre ++ [p.record name] := by
  obtain ⟨ps, p, q, rfl⟩ : ∃ pre p q, ps = pre ++ [p, q] :=
    (length_lt_two_or ps).resolve_left (by omega)
  have hpromoted := @entries_promotions name start (ps ++ [p, q])
  have hempty : start.releases.entries name = [] := rfl
  have hlist : (ps ++ [p, q]).map (Promotion.record name) =
      ps.map (Promotion.record name) ++ [p.record name, q.record name] := by simp
  rw [hempty, List.nil_append, hlist] at hpromoted
  obtain ⟨pre, hlen, hentries⟩ := entries_rollbacks k hpromoted
  rw [← after_append] at hentries
  rw [List.length_map] at hlen
  rcases Nat.mod_two_eq_zero_or_one k with hk | hk
  · refine ⟨pre ++ [p.record name], q, ?_, ?_, ?_⟩
    · simp [hk]
    · simp [hlen]
      omega
    · rw [hentries, if_pos hk]
      simp
  · refine ⟨pre ++ [q.record name], p, ?_, ?_, ?_⟩
    · simp [hk]
    · simp [hlen]
      omega
    · rw [hentries, if_neg (by omega)]
      simp

end Audited

open Audited

/-- Along any sequence of calls on one name, no rollback makes a withdrawn release current if and
only if no rollback directly follows a rollback that changed the digest.  Rollbacks in a row after
`n ≥ 2` promotions each append an entry and alternate between the last two promoted digests. -/
theorem rollback_resurrects_only_after_rollback (name : String) :
    (∀ calls, EachStep (step name) (KeepsWithdrawn name) start calls ↔
      EachStep (step name) (NotTwice name) start calls) ∧
    ∀ (promotions : List Promotion) (k : Nat), 2 ≤ promotions.length →
      ((after (step name) start (promotions.map Promotion.call ++ List.replicate k .rollback)
        ).releases.entries name).length = promotions.length + k ∧
      ∃ record, current (after (step name) start
          (promotions.map Promotion.call ++ List.replicate k .rollback)).releases name =
            some record ∧
        promotions[promotions.length - 1 - k % 2]?.map (fun p => p.2.1) =
          some record.specDigest := by
  refine ⟨?_, ?_⟩
  · intro calls
    exact eachStep_congr (fun s i h => h.keepsWithdrawn_iff) (fun s i h hi => h.step hi)
      (Inv.init name)
  · intro promotions k hlen
    obtain ⟨pre, p, hp, hpre, hentries⟩ := @entries_promotions_rollbacks name _ k hlen
    refine ⟨?_, _, current_of_entries hentries, ?_⟩
    · rw [hentries, List.length_append]
      exact hpre
    · rw [hp]
      rfl

/-- Three releases of different digests. -/
def demoPromotions : List Promotion :=
  [(0, ContentDigest.replicate '1' isLowerHex_one, ⟨none, "ci", none⟩),
    (1, ContentDigest.replicate '2' isLowerHex_two, ⟨none, "ci", none⟩),
    (2, ContentDigest.replicate '3' rfl, ⟨none, "ci", none⟩)]

/-- The registry after the three promotions and `k` rollbacks. -/
def demoAfter (k : Nat) : Audited :=
  after (step "agent") start (demoPromotions.map Promotion.call ++ List.replicate k .rollback)

theorem rollback_resurrects_only_after_rollback_demo :
    (∀ calls, EachStep (step "agent") (KeepsWithdrawn "agent") start calls ↔
      EachStep (step "agent") (NotTwice "agent") start calls) ∧
    ((demoAfter 2).releases.entries "agent").length = 5 :=
  ⟨(rollback_resurrects_only_after_rollback "agent").1,
    ((rollback_resurrects_only_after_rollback "agent").2 demoPromotions 2 (by decide)).1⟩

/-- The first rollback withdraws the third release; the second one makes it current again, where two
rollbacks should lead back to the first release. -/
theorem rollback_resurrects_withdrawn :
    ¬ KeepsWithdrawn "agent" (demoAfter 1) .rollback ∧
    (current (demoAfter 2).releases "agent").map (·.specDigest) =
      some (ContentDigest.replicate '3' rfl) ∧
    ContentDigest.replicate '3' rfl ≠ ContentDigest.replicate '1' rfl := by
  refine ⟨?_, ?_, ?_⟩
  · intro hkeeps
    have hrollback : (MemoryReleaseRegistry.rollback (demoAfter 1).releases "agent").1 =
        .ok ⟨"agent", ContentDigest.replicate '3' rfl, ⟨none, "ci", none⟩, 2⟩ := by
      rfl
    exact hkeeps rfl _ hrollback (by decide +kernel)
  · rfl
  · decide +kernel

end State
end Aivcs
