import Aivcs.Lib.Run
import Aivcs.CargoRegistry.Routes

/-!
# CargoRegistry.Consistency — artifacts and index records over unreliable storage

Publish requests are taken one after the other on a store whose calls may fail, with or without
having been executed.  A version is as it should be when its artifact is absent, or it has an index
record, or sending its request again would give it one.

Sending again never helps: an artifact that is there answers with a conflict.  So a run keeps all
versions in order exactly when every artifact that is stored is followed by its index record in the
same request (`IndexFollows`).
-/

namespace Aivcs
namespace CargoRegistry

open Aivcs.Lib
open Aivcs.Lib.Proc

variable {R : Registry} {s : Objects}

/-! ## Runs -/

/-- A request and what becomes of its store calls. -/
abbrev Attempt : Type := PublishRequest × (Nat → Delivery)

def step (R : Registry) (s : Objects) (a : Attempt) : Objects :=
  ((publish R a.1).runFaulty exec unavailable a.2 s).2

/-- The record belongs to the version; names in the index are case-insensitive. -/
def Record.Covers (r : Record) (name vers : String) : Prop :=
  asciiLower r.name = asciiLower name ∧ r.vers = vers

/-- The object `index_key(name)` has a record of the version. -/
def HasRecord (s : Objects) (name vers : String) : Prop :=
  ∃ key body, indexKey name = some key ∧ s (.index, key) = some body ∧
    ∃ r ∈ recordsIn body, r.Covers name vers

/-- The store after the request has been sent again while storage is healthy. -/
def resent (R : Registry) (s : Objects) (req : PublishRequest) : Objects :=
  ((publish R req).run exec s).2

/-- If its artifact is there, the version has an index record or can still get one. -/
def Recoverable (R : Registry) (s : Objects) (req : PublishRequest) : Prop :=
  ∀ m crateBytes, payload? R req = some (m, crateBytes) →
    (s (.crates, crateKey m.name m.vers)).isSome = true →
      HasRecord s m.name m.vers ∨ HasRecord (resent R s req) m.name m.vers

/-- The request stores its artifact: the version is new, the answer to the first call arrives and
the second call is executed. -/
def StoresArtifact (s : Objects) (m : PublishMeta) (fate : Nat → Delivery) : Prop :=
  s (.crates, crateKey m.name m.vers) = none ∧ fate 0 = .answered ∧ fate 1 ≠ .refused

/-- An artifact that is stored is followed by its record: its write is acknowledged, the index key of
its name exists, the index object can be read and is written.  And no other request of the run is
for the same artifact under another name. -/
def IndexFollows (R : Registry) (reqs : List PublishRequest) (s : Objects) (a : Attempt) : Prop :=
  ∀ m crateBytes, payload? R a.1 = some (m, crateBytes) → StoresArtifact s m a.2 →
    a.2 1 = .answered ∧ (indexKey m.name).isSome = true ∧ a.2 2 = .answered ∧ a.2 3 ≠ .refused ∧
      ∀ req ∈ reqs, ∀ m' crateBytes', payload? R req = some (m', crateBytes') →
        crateKey m'.name m'.vers = crateKey m.name m.vers → asciiLower m'.name = asciiLower m.name

/-! ## What one request does -/

/-- A version whose artifact is there is refused. -/
theorem run_publishCrate_of_present {m : PublishMeta} {crateBytes : Bytes}
    (h : (s (.crates, crateKey m.name m.vers)).isSome = true) :
    (publishCrate R m crateBytes).run exec s = (alreadyPublished m, s) := by
  simp [publishCrate, Store.keyExists, exec, h]

theorem publish_of_payload {req : PublishRequest} {m : PublishMeta} {crateBytes : Bytes}
    (h : payload? R req = some (m, crateBytes)) : publish R req = publishCrate R m crateBytes := by
  unfold payload? at h
  unfold publish
  cases hg : guard R req with
  | some r =>
      simp [hg] at h
  | none =>
      simp only [hg] at h
      simp [h]

/-- A guard never answers with success. -/
theorem guard_ne_ok {req : PublishRequest} {r : Response} (h : guard R req = some r) :
    r.status ≠ .ok := by
  unfold guard at h
  cases hh : httpsRedirect R req with
  | some r' =>
      obtain rfl : r' = r := by simpa [hh] using h
      -- A redirect is 301, a refused credential 401.
      unfold httpsRedirect at hh
      split_ifs at hh
      cases hh
      simp
  | none =>
      simp only [hh, Option.orElse_none] at h
      unfold authReject at h
      split at h
      · cases h
      · split_ifs at h
        cases h
        simp [reply]

/-- A request without a payload makes no call and does not succeed. -/
theorem publish_of_no_payload {req : PublishRequest} (h : payload? R req = none) :
    ∃ a, publish R req = .ret a ∧ a ≠ published := by
  unfold payload? at h
  unfold publish
  cases hg : guard R req with
  | some r =>
      refine ⟨_, rfl, ?_⟩
      rintro ⟨⟩
      exact guard_ne_ok hg rfl
  | none =>
      simp only [hg] at h
      exact ⟨.response (reply .badRequest "malformed publish payload"), by simp only [h]; rfl,
        by simp [published, reply]⟩

/-- The store after the index half of a publish. -/
def withRecord (R : Registry) (s : Objects) (m : PublishMeta) (crateBytes : Bytes) (key : String) :
    Objects :=
  s.insert (.index, key) (appendLine ((s (.index, key)).getD []) (recordLine R m crateBytes))

/-- The index half: the record is written, or the store stays as it was. -/
theorem runFaulty_appendRecord (m : PublishMeta) (crateBytes : Bytes) (fate : Nat → Delivery) :
    (∃ key, indexKey m.name = some key ∧ fate 0 = .answered ∧ fate 1 ≠ .refused ∧
      ((appendRecord R m crateBytes).runFaulty exec unavailable fate s).2 =
        withRecord R s m crateBytes key) ∨
    (¬ ((indexKey m.name).isSome = true ∧ fate 0 = .answered ∧ fate 1 ≠ .refused) ∧
      ((appendRecord R m crateBytes).runFaulty exec unavailable fate s).2 = s) := by
  unfold appendRecord
  cases hkey : indexKey m.name with
  | none =>
      exact Or.inr ⟨by simp, rfl⟩
  | some key =>
      -- Whatever was read, the write is the same call on the object as it is.
      have hread : fate 0 = .answered →
          ((readIndex R m crateBytes key).runFaulty exec unavailable fate s).2 =
            ((writeIndex R m crateBytes key ((s (.index, key)).getD [])).runFaulty exec unavailable
              (fun n => fate (n + 1)) s).2 := by
        intro h₀
        cases hobj : s (.index, key) <;>
          simp [readIndex, Store.get, Proc.runFaulty, h₀, exec, hobj]
      -- By the fate of the read, then of the write; a read whose answer is lost ends the request.
      cases h₀ : fate 0 with
      | answered =>
          cases h₁ : fate 1 with
          | refused =>
              refine Or.inr ⟨by simp, ?_⟩
              rw [hread h₀]
              simp [writeIndex, Store.put, Proc.runFaulty, h₁, unavailable]
          | answered =>
              refine Or.inl ⟨key, rfl, rfl, by simp, ?_⟩
              rw [hread h₀]
              simp [writeIndex, Store.put, Proc.runFaulty, h₁, exec, withRecord]
          | lost =>
              refine Or.inl ⟨key, rfl, rfl, by simp, ?_⟩
              rw [hread h₀]
              simp [writeIndex, Store.put, Proc.runFaulty, h₁, exec, unavailable, withRecord]
      | refused =>
          refine Or.inr ⟨by simp, ?_⟩
          simp [readIndex, Store.get, Proc.runFaulty, h₀, unavailable]
      | lost =>
          refine Or.inr ⟨by simp, ?_⟩
          cases hobj : s (.index, key) <;>
            simp [readIndex, Store.get, Proc.runFaulty, h₀, unavailable, exec, hobj]

/-- The store after the artifact has been written. -/
def withArtifact (s : Objects) (m : PublishMeta) (crateBytes : Bytes) : Objects :=
  s.insert (.crates, crateKey m.name m.vers) crateBytes

section Crate

variable {m : PublishMeta} {crateBytes : Bytes} {fate : Nat → Delivery}

/-- Nothing is stored when the version is there already or a call before the write fails. -/
theorem runFaulty_publishCrate_unstored (hst : ¬ StoresArtifact s m fate) :
    ((publishCrate R m crateBytes).runFaulty exec unavailable fate s).2 = s := by
  cases h₀ : fate 0 with
  | answered =>
      cases hobj : s (.crates, crateKey m.name m.vers) with
      | some old =>
          simp [publishCrate, Store.keyExists, Proc.runFaulty, h₀, exec, hobj]
      | none =>
          have h₁ : fate 1 = .refused := by
            by_contra hne
            exact hst ⟨hobj, h₀, hne⟩
          simp [publishCrate, uploadArtifact, Store.keyExists, Store.put, Proc.runFaulty, h₀, h₁,
            exec, hobj, unavailable]
  | refused =>
      simp [publishCrate, Store.keyExists, Proc.runFaulty, h₀, unavailable]
  | lost =>
      simp [publishCrate, Store.keyExists, Proc.runFaulty, h₀, unavailable, exec]

/-- A write that is not acknowledged ends the request with the artifact stored. -/
theorem runFaulty_publishCrate_lost (hst : StoresArtifact s m fate) (h₁ : fate 1 = .lost) :
    ((publishCrate R m crateBytes).runFaulty exec unavailable fate s).2 =
      withArtifact s m crateBytes := by
  simp [publishCrate, uploadArtifact, Store.keyExists, Store.put, Proc.runFaulty, hst.2.1, h₁, exec,
    hst.1, unavailable, withArtifact]

/-- After an acknowledged write comes the index half. -/
theorem runFaulty_publishCrate_answered (hst : StoresArtifact s m fate) (h₁ : fate 1 = .answered) :
    ((publishCrate R m crateBytes).runFaulty exec unavailable fate s).2 =
      ((appendRecord R m crateBytes).runFaulty exec unavailable (fun n => fate (n + 2))
        (withArtifact s m crateBytes)).2 := by
  simp [publishCrate, uploadArtifact, Store.keyExists, Store.put, Proc.runFaulty, hst.2.1, h₁, exec,
    hst.1, withArtifact]

end Crate

/-- One request leaves the store alone, or it stores its artifact and, if everything goes well from
there on, the record. -/
theorem step_cases (R : Registry) (s : Objects) (a : Attempt) :
    (step R s a = s ∧ ∀ m crateBytes, payload? R a.1 = some (m, crateBytes) →
      ¬ StoresArtifact s m a.2) ∨
    ∃ m crateBytes, payload? R a.1 = some (m, crateBytes) ∧ StoresArtifact s m a.2 ∧
      ((∃ key, indexKey m.name = some key ∧ a.2 1 = .answered ∧ a.2 2 = .answered ∧
          a.2 3 ≠ .refused ∧
          step R s a = withRecord R (withArtifact s m crateBytes) m crateBytes key) ∨
        (¬ (a.2 1 = .answered ∧ (indexKey m.name).isSome = true ∧ a.2 2 = .answered ∧
            a.2 3 ≠ .refused) ∧
          step R s a = withArtifact s m crateBytes)) := by
  rcases a with ⟨req, fate⟩
  unfold step
  cases hp : payload? R req with
  | none =>
      rcases publish_of_no_payload hp with ⟨ans, hans, -⟩
      refine Or.inl ⟨?_, by simp⟩
      rw [hans]
      rfl
  | some mb =>
      rcases mb with ⟨m, crateBytes⟩
      rw [publish_of_payload hp]
      -- By whether the artifact is stored; if so, by whether its write is acknowledged.
      by_cases hst : StoresArtifact s m fate
      · refine Or.inr ⟨m, crateBytes, rfl, hst, ?_⟩
        cases hf : fate 1 with
        | refused =>
            exact absurd hf hst.2.2
        | lost =>
            exact Or.inr ⟨by simp [hf], runFaulty_publishCrate_lost hst hf⟩
        | answered =>
            rw [runFaulty_publishCrate_answered hst hf]
            rcases runFaulty_appendRecord (R := R) (s := withArtifact s m crateBytes) m crateBytes
              (fun n => fate (n + 2)) with ⟨key, hkey, h₂, h₃, heq⟩ | ⟨hno, heq⟩
            · exact Or.inl ⟨key, hkey, hf, h₂, h₃, heq⟩
            · exact Or.inr ⟨fun h => hno h.2, heq⟩
      · refine Or.inl ⟨runFaulty_publishCrate_unstored hst, ?_⟩
        rintro m' crateBytes' ⟨⟩
        exact hst

/-! ## Artifacts and records -/

/-- Every record of the index stands for an artifact that is there. -/
def Backed (s : Objects) : Prop :=
  ∀ key body, s (.index, key) = some body → ∀ r ∈ recordsIn body,
    (s (.crates, r.key)).isSome = true

theorem backed_empty : Backed ∅ := by
  intro key body h
  cases h

/-- Storing an artifact touches no index object. -/
theorem withArtifact_index (m : PublishMeta) (crateBytes : Bytes) (key : String) :
    withArtifact s m crateBytes (.index, key) = s (.index, key) :=
  Map.insert_of_ne _ _ (by simp)

theorem isSome_withArtifact {m : PublishMeta} {crateBytes : Bytes} {k : String} :
    (withArtifact s m crateBytes (.crates, k)).isSome = true ↔
      k = crateKey m.name m.vers ∨ (s (.crates, k)).isSome = true := by
  unfold withArtifact
  rw [Map.isSome_insert]
  simp

/-- Writing an index object touches no artifact. -/
theorem withRecord_crates (m : PublishMeta) (crateBytes : Bytes) (key k : String) :
    withRecord R s m crateBytes key (.crates, k) = s (.crates, k) :=
  Map.insert_of_ne _ _ (by simp)

/-- The record a publish writes. -/
def recordFor (R : Registry) (m : PublishMeta) (crateBytes : Bytes) : Record :=
  { name := m.name, vers := m.vers, cksum := some (R.sha256Hex crateBytes) }

theorem recordsIn_appendLine (body : Bytes) (m : PublishMeta) (crateBytes : Bytes) :
    recordsIn (appendLine body (recordLine R m crateBytes)) =
      recordsIn body ++ [recordFor R m crateBytes] := by
  unfold recordsIn recordLine
  rw [lines_appendLine_entryLine, List.filterMap_append]
  simp [recordOf?_entryLine, indexEntry, recordFor]

/-- The records of an index object after a record has been written. -/
theorem mem_recordsIn_withRecord {m : PublishMeta} {crateBytes : Bytes} {key k : String}
    {body : Bytes} (h : withRecord R s m crateBytes key (.index, k) = some body) {r : Record}
    (hr : r ∈ recordsIn body) :
    (k = key ∧ r = recordFor R m crateBytes) ∨
      ∃ old, s (.index, k) = some old ∧ r ∈ recordsIn old := by
  unfold withRecord at h
  rcases Map.insert_eq_some h with ⟨hk, rfl⟩ | ⟨-, hold⟩
  · have hk' : k = key := by simpa using hk
    subst hk'
    rw [recordsIn_appendLine] at hr
    rcases List.mem_append.1 hr with hr | hr
    · cases hobj : s (.index, k) with
      | none =>
          simp [hobj, recordsIn] at hr
      | some old =>
          exact Or.inr ⟨old, rfl, by simpa [hobj] using hr⟩
    · exact Or.inl ⟨rfl, List.mem_singleton.1 hr⟩
  · exact Or.inr ⟨body, hold, hr⟩

/-- What has a record keeps it. -/
theorem HasRecord.withRecord {name vers : String} (h : HasRecord s name vers) (m : PublishMeta)
    (crateBytes : Bytes) (key : String) : HasRecord (withRecord R s m crateBytes key) name vers := by
  rcases h with ⟨k, body, hk, hbody, r, hr, hcov⟩
  by_cases heq : k = key
  · subst heq
    refine ⟨k, _, hk, Map.insert_self _ _ _, r, ?_, hcov⟩
    rw [recordsIn_appendLine, hbody]
    exact List.mem_append_left _ hr
  · refine ⟨k, body, hk, ?_, r, hr, hcov⟩
    unfold CargoRegistry.withRecord
    rw [Map.insert_of_ne _ _ (by simp [heq])]
    exact hbody

theorem hasRecord_withArtifact {m : PublishMeta} {crateBytes : Bytes} {name vers : String} :
    HasRecord (withArtifact s m crateBytes) name vers ↔ HasRecord s name vers := by
  unfold HasRecord
  simp only [withArtifact_index]

/-- A new record gives its version one, and no other version. -/
theorem hasRecord_withRecord {m : PublishMeta} {crateBytes : Bytes} {key name vers : String}
    (hkey : indexKey m.name = some key) :
    HasRecord (withRecord R s m crateBytes key) name vers ↔
      HasRecord s name vers ∨ (asciiLower m.name = asciiLower name ∧ m.vers = vers) := by
  constructor
  · rintro ⟨k, body, hk, hbody, r, hr, hcov⟩
    rcases mem_recordsIn_withRecord hbody hr with ⟨-, rfl⟩ | ⟨old, hold, hr⟩
    · exact Or.inr hcov
    · exact Or.inl ⟨k, old, hk, hold, r, hr, hcov⟩
  · rintro (h | ⟨hname, hvers⟩)
    · exact h.withRecord m crateBytes key
    · refine ⟨key, _, ?_, Map.insert_self _ _ _, recordFor R m crateBytes, ?_, hname, hvers⟩
      · rw [← hkey]
        exact indexKey_congr hname.symm
      · rw [recordsIn_appendLine]
        simp

/-- A version without an artifact has no record. -/
theorem Backed.not_hasRecord (h : Backed s) {name vers : String}
    (habsent : s (.crates, crateKey name vers) = none) : ¬ HasRecord s name vers := by
  rintro ⟨k, body, -, hbody, r, hr, hname, hvers⟩
  have hsome := h k body hbody r hr
  have hkey : r.key = crateKey name vers := by
    unfold Record.key crateKey
    rw [hname, hvers]
  rw [hkey, habsent] at hsome
  cases hsome

theorem Backed.step (h : Backed s) (a : Attempt) : Backed (step R s a) := by
  -- An artifact more never leaves a record without one.
  have hart : ∀ m crateBytes, Backed (withArtifact s m crateBytes) := by
    intro m crateBytes key body hbody r hr
    rw [withArtifact_index] at hbody
    exact isSome_withArtifact.2 (Or.inr (h key body hbody r hr))
  rcases step_cases R s a with ⟨heq, -⟩ | ⟨m, crateBytes, -, -, ⟨key, -, -, -, -, heq⟩ | ⟨-, heq⟩⟩
  · rw [heq]
    exact h
  · rw [heq]
    intro k body hbody r hr
    rw [withRecord_crates]
    rcases mem_recordsIn_withRecord hbody hr with ⟨-, rfl⟩ | ⟨old, hold, hr⟩
    · exact isSome_withArtifact.2 (Or.inl rfl)
    · exact hart m crateBytes k old hold r hr
  · rw [heq]
    exact hart m crateBytes

/-! ## Which runs keep every version in order -/

/-- Sending a request again does nothing for an artifact that is there. -/
theorem recoverable_iff {req : PublishRequest} {m : PublishMeta} {crateBytes : Bytes}
    (hp : payload? R req = some (m, crateBytes)) :
    Recoverable R s req ↔
      ((s (.crates, crateKey m.name m.vers)).isSome = true → HasRecord s m.name m.vers) := by
  have hresent : (s (.crates, crateKey m.name m.vers)).isSome = true → resent R s req = s := by
    intro hsome
    unfold resent
    rw [publish_of_payload hp, run_publishCrate_of_present hsome]
  constructor
  · intro h hsome
    rcases h m crateBytes hp hsome with hrec | hrec
    · exact hrec
    · rwa [hresent hsome] at hrec
  · intro h m' crateBytes' hp' hsome
    rw [hp] at hp'
    cases hp'
    exact Or.inl (h hsome)

/-- Records are backed and every version of the run is in order. -/
def InOrder (R : Registry) (reqs : List PublishRequest) (s : Objects) : Prop :=
  Backed s ∧ ∀ req ∈ reqs, Recoverable R s req

section Stored

variable {reqs : List PublishRequest} {a : Attempt} {m : PublishMeta} {crateBytes : Bytes}

/-- The artifact is stored and its record follows: every version is in order exactly when no other request
of the run answers to the artifact under another name. -/
theorem inOrder_recorded_iff (h : InOrder R reqs s) {key : String}
    (habsent : s (.crates, crateKey m.name m.vers) = none) (hkey : indexKey m.name = some key)
    (heq : step R s a = withRecord R (withArtifact s m crateBytes) m crateBytes key) :
    InOrder R reqs (step R s a) ↔
      ∀ req ∈ reqs, ∀ m' crateBytes', payload? R req = some (m', crateBytes') →
        crateKey m'.name m'.vers = crateKey m.name m.vers →
          asciiLower m'.name = asciiLower m.name := by
  rcases h with ⟨hback, hrec⟩
  constructor
  · rintro ⟨-, hrec'⟩ req hreq m₂ b₂ hp₂ hsame
    -- The artifact is there for the other request too; only the new record can be its record.
    have hpresent : (step R s a (.crates, crateKey m₂.name m₂.vers)).isSome = true := by
      rw [heq, withRecord_crates]
      exact isSome_withArtifact.2 (Or.inl hsame)
    have hhas := (recoverable_iff hp₂).1 (hrec' req hreq) hpresent
    rw [heq, hasRecord_withRecord hkey, hasRecord_withArtifact] at hhas
    rcases hhas with hold | ⟨hname, -⟩
    · refine absurd hold (hback.not_hasRecord ?_)
      rw [hsame]
      exact habsent
    · exact hname.symm
  · intro halias
    refine ⟨hback.step a, ?_⟩
    intro req hreq m₂ b₂ hp₂ hpresent
    refine Or.inl ?_
    rw [heq, withRecord_crates] at hpresent
    rw [heq, hasRecord_withRecord hkey, hasRecord_withArtifact]
    rcases isSome_withArtifact.1 hpresent with hsame | hold
    · have hname := halias req hreq m₂ b₂ hp₂ hsame
      exact Or.inr ⟨hname.symm, (vers_eq_of_crateKey hname hsame).symm⟩
    · exact Or.inl ((recoverable_iff hp₂).1 (hrec req hreq) hold)

/-- The artifact is stored and its record is not: this very request is lost. -/
theorem not_inOrder_of_unrecorded (ha : a.1 ∈ reqs) (h : InOrder R reqs s)
    (hp : payload? R a.1 = some (m, crateBytes))
    (habsent : s (.crates, crateKey m.name m.vers) = none)
    (heq : step R s a = withArtifact s m crateBytes) : ¬ InOrder R reqs (step R s a) := by
  rintro ⟨-, hrec'⟩
  have hpresent : (step R s a (.crates, crateKey m.name m.vers)).isSome = true := by
    rw [heq]
    exact isSome_withArtifact.2 (Or.inl rfl)
  have hhas := (recoverable_iff hp).1 (hrec' a.1 ha) hpresent
  rw [heq, hasRecord_withArtifact] at hhas
  exact h.1.not_hasRecord habsent hhas

end Stored

/-- A step keeps every version in order exactly when an artifact it stores is followed by its
record, under one name. -/
theorem inOrder_step_iff {reqs : List PublishRequest} {a : Attempt} (ha : a.1 ∈ reqs)
    (h : InOrder R reqs s) : InOrder R reqs (step R s a) ↔ IndexFollows R reqs s a := by
  rcases step_cases R s a with ⟨heq, hno⟩ | ⟨m, crateBytes, hp, hst, hcase⟩
  · rw [heq]
    refine iff_of_true h ?_
    intro m crateBytes hp hst
    exact absurd hst (hno m crateBytes hp)
  -- Either the record follows, and the question is who else answers to this artifact; or it does
  -- not, and both sides of the equivalence fail.
  rcases hcase with ⟨key, hkey, h₁, h₂, h₃, heq⟩ | ⟨hbad, heq⟩
  · rw [inOrder_recorded_iff h hst.1 hkey heq]
    constructor
    · intro halias m' crateBytes' hp' _
      obtain ⟨rfl, rfl⟩ : m = m' ∧ crateBytes = crateBytes' := by
        simpa using hp.symm.trans hp'
      exact ⟨h₁, by simp [hkey], h₂, h₃, halias⟩
    · intro hfol
      exact (hfol m crateBytes hp hst).2.2.2.2
  · refine iff_of_false (not_inOrder_of_unrecorded ha h hp hst.1 heq) ?_
    intro hfol
    rcases hfol m crateBytes hp hst with ⟨h₁, hk, h₂, h₃, -⟩
    exact hbad ⟨h₁, hk, h₂, h₃⟩

theorem inOrder_empty (reqs : List PublishRequest) : InOrder R reqs ∅ := by
  refine ⟨backed_empty, ?_⟩
  intro req _ m crateBytes _ hsome
  cases hsome

/-- Along a run of publish requests every stored artifact has an index record or can still get one
if and only if every artifact that is stored is followed by its record in the same request. -/
theorem artifacts_recoverable_iff (R : Registry) (attempts : List Attempt) :
    Always (step R) (fun s => ∀ req ∈ attempts.map Prod.fst, Recoverable R s req) ∅ attempts ↔
      EachStep (step R) (IndexFollows R (attempts.map Prod.fst)) ∅ attempts := by
  -- Backed records hold along every run, so they can be added to the left side.
  have hback : Always (step R) Backed ∅ attempts :=
    always_of_step (fun _ a h => h.step a) backed_empty attempts
  have hiff : Always (step R) (InOrder R (attempts.map Prod.fst)) ∅ attempts ↔
      EachStep (step R) (IndexFollows R (attempts.map Prod.fst)) ∅ attempts :=
    always_iff_eachStep
      (fun _ _ ha h => inOrder_step_iff (List.mem_map_of_mem ha) h) (inOrder_empty _)
  rw [← hiff]
  constructor
  · intro h pre hpre
    exact ⟨hback pre hpre, h pre hpre⟩
  · intro h pre hpre
    exact (h pre hpre).2

/-- The index object cannot be read when the artifact has just been stored. -/
def indexOutage (n : Nat) : Delivery :=
  if n = 2 then .refused else .answered

/-- One failed read strands a version: its artifact is there, it has no record and will get none. -/
theorem index_outage_strands_version :
    ¬ Always (step demoRegistry)
      (fun s => ∀ req ∈ [demoRequest "0.1.0" "x"], Recoverable demoRegistry s req) ∅
      [(demoRequest "0.1.0" "x", indexOutage)] := by
  intro h
  have hp : payload? demoRegistry (demoRequest "0.1.0" "x") = some (demoMeta "0.1.0", utf8 "x") := by
    decide +kernel
  have hpresent : (after (step demoRegistry) ∅ [(demoRequest "0.1.0" "x", indexOutage)]
      (.crates, crateKey "demo" "0.1.0")).isSome = true := by
    decide +kernel
  have hindex : after (step demoRegistry) ∅ [(demoRequest "0.1.0" "x", indexOutage)]
      (.index, "de/mo/demo") = none := by
    decide +kernel
  have hkey : indexKey "demo" = some "de/mo/demo" := by
    decide +kernel
  rcases (recoverable_iff hp).1 (h.final _ List.mem_cons_self) hpresent with ⟨k, body, hk, hbody, -⟩
  rw [show (demoMeta "0.1.0").name = "demo" from rfl, hkey] at hk
  obtain rfl := Option.some.inj hk
  rw [hindex] at hbody
  cases hbody

end CargoRegistry
end Aivcs
