import Aivcs.CargoRegistry.Repair

/-!
# CargoRegistry.RepairIdempotent — when a second repair finds nothing to do

A run writes the index only and reads the artifacts, so what becomes of a line is a function of the
line and the artifacts (`outcomeOf`), and a run is a map over the index objects
(`run_repairObjects`).

A rewritten record names the package found inside the artifact, and the second run looks the artifact
of *that* package up.  It finds nothing to do exactly when the two artifacts give one record
(`repair_idempotent_iff`).
-/

namespace Aivcs
namespace CargoRegistry

open Aivcs.Lib

/-! ## A run as a function -/

/-- The artifacts of a store. -/
def artifacts (s : Objects) : Map String Bytes :=
  fun key => s (.crates, key)

def LineOutcome.repaired? : LineOutcome → Option (String × IndexEntry)
  | .repaired id entry => some (id, entry)
  | _ => none

section Outcome

variable (E : RepairEnv) (ownRegistry : String) (A : Map String Bytes) (key : String)

/-- What becomes of a line, given the artifacts. -/
def outcomeOf (line : Bytes) : LineOutcome :=
  match E.fromSlice line with
  | .error e => .failed key ("unparseable: " ++ e)
  | .ok parsed =>
      let id := recordName parsed ++ "@" ++ recordVers parsed
      match A (crateKey (recordName parsed) (recordVers parsed)) with
      | none => .failed id ("artifact: " ++ StoreError.notFound.toString)
      | some bytes => compareLine E ownRegistry line id (recordYanked parsed) bytes

/-- The record a line is rewritten to, with the identifier it is reported under. -/
def rewrite? (line : Bytes) : Option (String × IndexEntry) :=
  (outcomeOf E ownRegistry A key line).repaired?

/-- The line that takes its place. -/
def newLine (line : Bytes) : Bytes :=
  (rewrite? E ownRegistry A key line).elim line fun p => entryLine p.2

/-- The lines of an object that are reported as repaired. -/
def repairedIn (body : Bytes) : List String :=
  (lines body).filterMap fun line => (rewrite? E ownRegistry A key line).map Prod.fst

/-- The object after a run that writes. -/
def newBody (body : Bytes) : Bytes :=
  if repairedIn E ownRegistry A key body = [] then body
  else (lines body).flatMap fun line => newLine E ownRegistry A key line ++ [10]

theorem run_repairLine (s : Objects) (line : Bytes) :
    (repairLine E ownRegistry key line).run exec s =
      (outcomeOf E ownRegistry (artifacts s) key line, s) := by
  unfold repairLine outcomeOf artifacts
  cases E.fromSlice line with
  | error e =>
      rfl
  | ok parsed =>
      cases hget : s (.crates, crateKey (recordName parsed) (recordVers parsed)) <;>
        simp [Store.get, exec, hget]

/-- What one line adds to a pass. -/
theorem Pass.add_spec (p : Pass) (line : Bytes) :
    let p' := p.add line (outcomeOf E ownRegistry A key line)
    p'.out = p.out ++ newLine E ownRegistry A key line ++ [10] ∧
      p'.changed = (p.changed || (rewrite? E ownRegistry A key line).isSome) ∧
      p'.report.repaired = p.report.repaired ++
        ((rewrite? E ownRegistry A key line).map Prod.fst).toList := by
  unfold newLine rewrite?
  cases outcomeOf E ownRegistry A key line <;>
    simp [Pass.add, LineOutcome.repaired?, RepairReport.fail]

/-- What the lines of an object add to it. -/
theorem run_repairLines (s : Objects) (ls : List Bytes) (p : Pass) :
    ∃ p', (repairLines E ownRegistry key ls p).run exec s = (p', s) ∧
      p'.out = p.out ++ ls.flatMap (fun line => newLine E ownRegistry (artifacts s) key line ++ [10]) ∧
      p'.changed = (p.changed ||
        ls.any fun line => (rewrite? E ownRegistry (artifacts s) key line).isSome) ∧
      p'.report.repaired = p.report.repaired ++ ls.filterMap fun line =>
        (rewrite? E ownRegistry (artifacts s) key line).map Prod.fst := by
  induction ls generalizing p with
  | nil =>
      exact ⟨p, rfl, by simp, by simp, by simp⟩
  | cons line rest ih =>
      obtain ⟨hout, hchanged, hrepaired⟩ := Pass.add_spec E ownRegistry (artifacts s) key p line
      obtain ⟨p', hrun, hout', hchanged', hrepaired'⟩ :=
        ih (p.add line (outcomeOf E ownRegistry (artifacts s) key line))
      refine ⟨p', ?_, ?_, ?_, ?_⟩
      · rw [repairLines, Proc.run_bind, run_repairLine]
        exact hrun
      · rw [hout', hout]
        simp
      · rw [hchanged', hchanged, List.any_cons, Bool.or_assoc]
      · rw [hrepaired', hrepaired, List.append_assoc, List.filterMap_cons]
        cases rewrite? E ownRegistry (artifacts s) key line <;> rfl

theorem repairedIn_eq_nil_iff (body : Bytes) : repairedIn E ownRegistry A key body = [] ↔
    ∀ line ∈ lines body, rewrite? E ownRegistry A key line = none := by
  simp [repairedIn, List.filterMap_eq_nil_iff]

theorem any_rewrite?_eq_false_iff (body : Bytes) :
    ((lines body).any fun line => (rewrite? E ownRegistry A key line).isSome) = false ↔
      repairedIn E ownRegistry A key body = [] := by
  rw [repairedIn_eq_nil_iff]
  simp

/-- Every line is replaced by its new line. -/
theorem lines_newBody (body : Bytes) : lines (newBody E ownRegistry A key body) =
    (lines body).map (newLine E ownRegistry A key) := by
  unfold newBody
  split
  · rename_i hnil
    rw [repairedIn_eq_nil_iff] at hnil
    have hsame : ∀ line ∈ lines body, line = newLine E ownRegistry A key line := by
      intro line hline
      rw [newLine, hnil line hline, Option.elim_none]
    exact (List.map_id _).symm.trans (List.map_congr_left hsame)
  · have hlines : ∀ line ∈ (lines body).map (newLine E ownRegistry A key),
        line ≠ [] ∧ (10 : UInt8) ∉ line := by
      intro line hline
      obtain ⟨old, hold, rfl⟩ := List.mem_map.mp hline
      unfold newLine
      cases rewrite? E ownRegistry A key old with
      | none =>
          exact mem_lines hold
      | some p =>
          exact ⟨entryLine_ne_nil p.2, Json.newline_not_mem_render p.2.toJson⟩
    rw [← lines_flatMap hlines, List.flatMap_map]

/-- When a line is rewritten, and to what. -/
theorem rewrite?_eq_some_iff (line : Bytes) (id : String) (e : IndexEntry) :
    rewrite? E ownRegistry A key line = some (id, e) ↔ ∃ parsed bytes,
      E.fromSlice line = .ok parsed ∧
      A (crateKey (recordName parsed) (recordVers parsed)) = some bytes ∧
      rebuild E ownRegistry bytes (recordYanked parsed) = .ok e ∧
      recordMatches E line e = false ∧ recordName parsed ++ "@" ++ recordVers parsed = id := by
  unfold rewrite? outcomeOf
  cases E.fromSlice line with
  | error e =>
      simp [LineOutcome.repaired?]
  | ok parsed =>
      cases hget : A (crateKey (recordName parsed) (recordVers parsed)) with
      | none =>
          simp [LineOutcome.repaired?, hget]
      | some bytes =>
          simp only [compareLine]
          cases hrebuild : rebuild E ownRegistry bytes (recordYanked parsed) with
          | error e =>
              simp [LineOutcome.repaired?, hget, hrebuild]
          | ok entry =>
              simp only [hget, hrebuild]
              grind [LineOutcome.repaired?]

@[simp] theorem recordName_toJson (e : IndexEntry) : recordName e.toJson = e.name := by
  simp [recordName, IndexEntry.toJson, Json.field?, lookup_optionalMember, List.lookup_cons, Json.asStr?]

@[simp] theorem recordVers_toJson (e : IndexEntry) : recordVers e.toJson = e.vers := by
  simp [recordVers, IndexEntry.toJson, Json.field?, lookup_optionalMember, List.lookup_cons, Json.asStr?]

@[simp] theorem recordYanked_toJson (e : IndexEntry) : recordYanked e.toJson = e.yanked := by
  simp [recordYanked, IndexEntry.toJson, Json.field?, lookup_optionalMember, Json.asBool?]

/-- A written record is left alone exactly when the artifact it names gives that record, or none. -/
theorem rewrite?_entryLine_eq_none_iff (hjson : E.ReadsRecords) (e : IndexEntry) :
    rewrite? E ownRegistry A key (entryLine e) = none ↔
      ∀ bytes e', A (crateKey e.name e.vers) = some bytes →
        rebuild E ownRegistry bytes e.yanked = .ok e' → e' = e := by
  rw [Option.eq_none_iff_forall_ne_some]
  constructor
  · intro hnone bytes e' hget hrebuild
    by_contra hne
    have hmatch : recordMatches E (entryLine e) e' = false := by
      rw [Bool.eq_false_iff, ne_eq, recordMatches_entryLine E hjson]
      exact fun heq => hne heq.symm
    refine hnone (e.name ++ "@" ++ e.vers, e') ?_
    rw [rewrite?_eq_some_iff]
    exact ⟨e.toJson, bytes, hjson e, by simpa using hget, by simpa using hrebuild, hmatch, by simp⟩
  · rintro hsame ⟨id, e'⟩ hsome
    obtain ⟨parsed, bytes, hparsed, hget, hrebuild, hmatch, -⟩ :=
      (rewrite?_eq_some_iff E ownRegistry A key _ _ _).mp hsome
    obtain rfl : e.toJson = parsed := Except.ok.inj ((hjson e).symm.trans hparsed)
    rw [recordName_toJson, recordVers_toJson] at hget
    rw [recordYanked_toJson] at hrebuild
    have heq : e' = e := hsame bytes e' hget hrebuild
    have htrue := (recordMatches_entryLine E hjson e e').mpr heq.symm
    rw [hmatch] at htrue
    exact Bool.false_ne_true htrue

/-- An object that has been repaired holds nothing to repair exactly when no record of it was rewritten
to one that would be rewritten again. -/
theorem repairedIn_newBody_eq_nil_iff (body : Bytes) :
    repairedIn E ownRegistry A key (newBody E ownRegistry A key body) = [] ↔
      ∀ line ∈ lines body, ∀ id e, rewrite? E ownRegistry A key line = some (id, e) →
        rewrite? E ownRegistry A key (entryLine e) = none := by
  rw [repairedIn_eq_nil_iff, lines_newBody]
  simp only [List.forall_mem_map]
  refine forall₂_congr fun line _ => ?_
  unfold newLine
  cases hrewrite : rewrite? E ownRegistry A key line with
  | none =>
      simp [hrewrite]
  | some p =>
      simp [Prod.ext_iff]

end Outcome

/-! ## The objects of a run -/

section Objects

variable (E : RepairEnv) (ownRegistry : String) (apply : Bool)

/-- What is reported as repaired in the object at `key`. -/
def repairedAt (s : Objects) (key : String) : List String :=
  (s (.index, key)).elim [] (repairedIn E ownRegistry (artifacts s) key)

/-- The store once the objects at `keys` have been gone through. -/
def afterRepair (keys : List String) (s : Objects) : Objects
  | (.index, key) =>
      if apply = true ∧ key ∈ keys then
        (s (.index, key)).map (newBody E ownRegistry (artifacts s) key)
      else
        s (.index, key)
  | (.crates, key) => s (.crates, key)

@[simp] theorem artifacts_afterRepair (keys : List String) (s : Objects) :
    artifacts (afterRepair E ownRegistry apply keys s) = artifacts s := rfl

theorem afterRepair_nil (s : Objects) : afterRepair E ownRegistry apply [] s = s := by
  ext1 ⟨bucket, key⟩
  cases bucket <;> simp [afterRepair]

theorem afterRepair_cons {key : String} {keys : List String} (h : key ∉ keys) (s : Objects) :
    afterRepair E ownRegistry apply keys (afterRepair E ownRegistry apply [key] s) =
      afterRepair E ownRegistry apply (key :: keys) s := by
  ext1 ⟨bucket, k⟩
  cases bucket with
  | crates =>
      rfl
  | index =>
      simp only [afterRepair, artifacts_afterRepair, List.mem_cons]
      grind

/-- Going through one object does not change what is reported for another. -/
theorem repairedAt_afterRepair {key k : String} (h : k ≠ key) (s : Objects) :
    repairedAt E ownRegistry (afterRepair E ownRegistry apply [key] s) k =
      repairedAt E ownRegistry s k := by
  simp [repairedAt, afterRepair, h]

/-- Nothing is written where nothing is repaired. -/
theorem afterRepair_of_nil {keys : List String} {s : Objects}
    (h : ∀ key ∈ keys, repairedAt E ownRegistry s key = []) :
    afterRepair E ownRegistry apply keys s = s := by
  ext1 ⟨bucket, key⟩
  cases bucket with
  | crates =>
      rfl
  | index =>
      simp only [afterRepair]
      split
      · rename_i hkey
        have hnil := h key hkey.2
        unfold repairedAt at hnil
        cases hget : s (.index, key) with
        | none =>
            rfl
        | some body =>
            rw [hget, Option.elim_some] at hnil
            rw [Option.map_some, newBody, if_pos hnil]
      · rfl

/-- An object is written once its lines have been gone through, if one of them changed. -/
theorem run_repairObject_of_get {key : String} {s : Objects} {body : Bytes} {report : RepairReport}
    {p : Pass} (hget : s (.index, key) = some body)
    (hlines : (repairLines E ownRegistry key (lines body) ⟨[], false, report⟩).run exec s = (p, s)) :
    (repairObject E ownRegistry apply key report).run exec s =
      (p.report, if p.changed && apply then s.insert (.index, key) p.out else s) := by
  simp only [repairObject, Store.get, Proc.bind_perform, Proc.run_call, exec, hget, Proc.run_bind,
    hlines]
  split <;> rfl

theorem run_repairObject (key : String) (s : Objects) (report : RepairReport) :
    ∃ report', (repairObject E ownRegistry apply key report).run exec s =
        (report', afterRepair E ownRegistry apply [key] s) ∧
      report'.repaired = report.repaired ++ repairedAt E ownRegistry s key := by
  cases hget : s (.index, key) with
  | none =>
      have hnil : ∀ k ∈ [key], repairedAt E ownRegistry s k = [] := by
        simp [repairedAt, hget]
      rw [afterRepair_of_nil E ownRegistry apply hnil]
      exact ⟨report.fail key ("read: " ++ StoreError.notFound.toString),
        by simp [repairObject, Store.get, exec, hget], by simp [RepairReport.fail, repairedAt, hget]⟩
  | some body =>
      obtain ⟨p, hlines, hout, hchanged, hrepaired⟩ :=
        run_repairLines E ownRegistry key s (lines body) ⟨[], false, report⟩
      have hat : repairedAt E ownRegistry s key =
          repairedIn E ownRegistry (artifacts s) key body := by
        rw [repairedAt, hget, Option.elim_some]
      refine ⟨p.report, ?_, by rw [hat]; exact hrepaired⟩
      rw [run_repairObject_of_get E ownRegistry apply hget hlines, hchanged, Bool.false_or]
      by_cases hnil : repairedIn E ownRegistry (artifacts s) key body = []
      · have hsame : ∀ k ∈ [key], repairedAt E ownRegistry s k = [] := by
          simp [hat, hnil]
        rw [afterRepair_of_nil E ownRegistry apply hsame,
          (any_rewrite?_eq_false_iff E ownRegistry (artifacts s) key body).mpr hnil]
        rfl
      · have hany := mt (any_rewrite?_eq_false_iff E ownRegistry (artifacts s) key body).mp hnil
        rw [Bool.not_eq_false] at hany
        rw [hany, Bool.true_and]
        refine Prod.ext rfl ?_
        ext1 ⟨bucket, k⟩
        cases apply <;> cases bucket <;>
          grind [afterRepair, Map.insert_apply, newBody]

/-- A run goes through the objects one after another; none of them matters to the next. -/
theorem run_repairObjects {keys : List String} (hkeys : keys.Nodup) (s : Objects)
    (report : RepairReport) :
    ∃ report', (repairObjects E ownRegistry apply keys report).run exec s =
        (report', afterRepair E ownRegistry apply keys s) ∧
      report'.repaired = report.repaired ++ keys.flatMap (repairedAt E ownRegistry s) := by
  induction keys generalizing s report with
  | nil =>
      exact ⟨report, by rw [afterRepair_nil]; rfl, by simp⟩
  | cons key keys ih =>
      obtain ⟨hkey, hkeys⟩ := List.nodup_cons.mp hkeys
      obtain ⟨report₁, hrun₁, hrepaired₁⟩ := run_repairObject E ownRegistry apply key s report
      obtain ⟨report₂, hrun₂, hrepaired₂⟩ :=
        ih hkeys (afterRepair E ownRegistry apply [key] s) report₁
      have hrest : keys.flatMap (repairedAt E ownRegistry (afterRepair E ownRegistry apply [key] s)) =
          keys.flatMap (repairedAt E ownRegistry s) := by
        refine List.flatMap_congr ?_
        intro k hk
        have hne : k ≠ key := ne_of_mem_of_not_mem hk hkey
        exact repairedAt_afterRepair E ownRegistry apply hne s
      refine ⟨report₂, ?_, ?_⟩
      · rw [repairObjects, Proc.run_bind, hrun₁, hrun₂, afterRepair_cons E ownRegistry apply hkey]
      · rw [hrepaired₂, hrepaired₁, hrest, List.flatMap_cons, List.append_assoc]

/-- A whole run over a working store. -/
theorem run_spec {keys : List String} (hkeys : keys.Nodup) (s : Objects) :
    ∃ report, (run E ownRegistry apply (.ok keys)).run exec s =
        (.ok report, afterRepair E ownRegistry apply keys s) ∧
      report.repaired = keys.flatMap (repairedAt E ownRegistry s) := by
  obtain ⟨report, hrun, hrepaired⟩ :=
    run_repairObjects E ownRegistry apply hkeys s RepairReport.default
  refine ⟨report, ?_, hrepaired⟩
  rw [run, Proc.run_bind, hrun]
  rfl

end Objects

/-! ## The second run -/

/-- The answer of `list(Bucket::Index, "")`: the keys of the index objects, each once. -/
structure IsListing (s : Objects) (keys : List String) : Prop where
  nodup : keys.Nodup
  mem_iff : ∀ key, key ∈ keys ↔ (s (.index, key)).isSome = true

/-- Wherever a record differs from the one its artifact gives, the artifact stored under the name and
version *inside* that one is missing, unreadable, or gives the same record. -/
def Settled (E : RepairEnv) (ownRegistry : String) (s : Objects) : Prop :=
  ∀ key body line parsed bytes e, s (.index, key) = some body → line ∈ lines body →
    E.fromSlice line = .ok parsed →
    s (.crates, crateKey (recordName parsed) (recordVers parsed)) = some bytes →
    rebuild E ownRegistry bytes (recordYanked parsed) = .ok e →
    recordMatches E line e = false →
    ∀ bytes' e', s (.crates, crateKey e.name e.vers) = some bytes' →
      rebuild E ownRegistry bytes' e.yanked = .ok e' → e' = e

section SecondRun

variable {E : RepairEnv} {ownRegistry : String} {s : Objects} {keys : List String}

theorem afterRepair_index (hkeys : IsListing s keys) (key : String) :
    afterRepair E ownRegistry true keys s (.index, key) =
      (s (.index, key)).map (newBody E ownRegistry (artifacts s) key) := by
  simp only [afterRepair, true_and, ite_eq_left_iff]
  intro hkey
  have hnone : s (.index, key) = none := by
    simpa using mt (hkeys.mem_iff key).mpr hkey
  rw [hnone, Option.map_none]

/-- No repaired object is left with something to repair exactly when the store was settled. -/
theorem repairedAt_afterRepair_eq_nil_iff (hjson : E.ReadsRecords) (hkeys : IsListing s keys) :
    (∀ key, repairedAt E ownRegistry (afterRepair E ownRegistry true keys s) key = []) ↔
      Settled E ownRegistry s := by
  have hobject : ∀ key, repairedAt E ownRegistry (afterRepair E ownRegistry true keys s) key = [] ↔
      ∀ body, s (.index, key) = some body → ∀ line ∈ lines body, ∀ id e,
        rewrite? E ownRegistry (artifacts s) key line = some (id, e) →
          rewrite? E ownRegistry (artifacts s) key (entryLine e) = none := by
    intro key
    rw [repairedAt, artifacts_afterRepair, afterRepair_index hkeys]
    cases hget : s (.index, key) with
    | none =>
        simp
    | some body =>
        simp only [Option.map_some, Option.elim_some, Option.some.injEq, forall_eq']
        exact repairedIn_newBody_eq_nil_iff E ownRegistry (artifacts s) key body
  simp only [hobject, rewrite?_entryLine_eq_none_iff E ownRegistry _ _ hjson, rewrite?_eq_some_iff]
  constructor
  · intro h key body line parsed bytes e hbody hline hparsed hget hrebuild hmatch
    exact h key body hbody line hline _ e ⟨parsed, bytes, hparsed, hget, hrebuild, hmatch, rfl⟩
  · rintro h key body hbody line hline id e ⟨parsed, bytes, hparsed, hget, hrebuild, hmatch, -⟩
    exact h key body line parsed bytes e hbody hline hparsed hget hrebuild hmatch

/-- After a run that writes, a second run reports nothing as repaired and changes no object if and only
if the store was settled before the first. -/
theorem repair_idempotent_iff (E : RepairEnv) (hjson : E.ReadsRecords) (ownRegistry : String)
    (s : Objects) (keys : List String) (hkeys : IsListing s keys) :
    ∃ report₁ s₁, (run E ownRegistry true (.ok keys)).run exec s = (.ok report₁, s₁) ∧
      ∀ (apply : Bool) (keys' : List String), IsListing s₁ keys' →
        ∃ report₂ s₂, (run E ownRegistry apply (.ok keys')).run exec s₁ = (.ok report₂, s₂) ∧
          (report₂.repaired = [] ∧ s₂ = s₁ ↔ Settled E ownRegistry s) := by
  obtain ⟨report₁, hrun₁, -⟩ := run_spec E ownRegistry true hkeys.nodup s
  refine ⟨report₁, _, hrun₁, ?_⟩
  intro apply keys' hkeys'
  obtain ⟨report₂, hrun₂, hrepaired₂⟩ := run_spec E ownRegistry apply hkeys'.nodup
    (afterRepair E ownRegistry true keys s)
  refine ⟨report₂, _, hrun₂, ?_⟩
  -- An object that is not listed is not there, so nothing is reported for it either.
  have hall : report₂.repaired = [] ↔
      ∀ key, repairedAt E ownRegistry (afterRepair E ownRegistry true keys s) key = [] := by
    rw [hrepaired₂, List.flatMap_eq_nil_iff]
    refine ⟨fun h key => ?_, fun h key _ => h key⟩
    by_cases hkey : key ∈ keys'
    · exact h key hkey
    · have hnone : afterRepair E ownRegistry true keys s (.index, key) = none := by
        simpa using mt (hkeys'.mem_iff key).mpr hkey
      rw [repairedAt, hnone, Option.elim_none]
  rw [← repairedAt_afterRepair_eq_nil_iff hjson hkeys, ← hall]
  refine ⟨And.left, fun hnil => ⟨hnil, ?_⟩⟩
  exact afterRepair_of_nil E ownRegistry apply fun key _ => hall.mp hnil key

theorem rebuild_yanked {bytes : Bytes} {yanked : Bool} {e : IndexEntry}
    (h : rebuild E ownRegistry bytes yanked = .ok e) : e.yanked = yanked := by
  unfold rebuild regenerateEntry at h
  cases htoml : manifestFromCrate E bytes with
  | error message =>
      simp [htoml, bind, Except.bind] at h
  | ok toml =>
      cases hm : E.fromToml toml with
      | error message =>
          simp [htoml, hm, bind, Except.bind] at h
      | ok m =>
          simp only [htoml, hm, bind, Except.bind, pure, Except.pure, Except.ok.injEq] at h
          rw [← h]
          rfl

/-- It is enough that every artifact holds the package it is stored under. -/
theorem settled_of_ownKey
    (h : ∀ key bytes yanked e, s (.crates, key) = some bytes →
      rebuild E ownRegistry bytes yanked = .ok e → key = crateKey e.name e.vers) :
    Settled E ownRegistry s := by
  intro key body line parsed bytes e _ _ _ hget hrebuild _ bytes' e' hget' hrebuild'
  rw [← h _ _ _ _ hget hrebuild, hget] at hget'
  obtain rfl : bytes = bytes' := Option.some.inj hget'
  rw [rebuild_yanked hrebuild, hrebuild] at hrebuild'
  exact (Except.ok.inj hrebuild').symm

end SecondRun

/-! ## An artifact under another name -/

/-- The package `b 2.0.0` as a `.crate`; the fifth byte is the time in the gzip header. -/
def crateB (time : UInt8) : Bytes :=
  [31, 139, 8, 0, time, 0, 0, 0, 2, 255, 75, 210, 53, 210, 51, 208, 51, 208, 119, 78, 44, 74, 207,
    215, 43, 201, 207, 205, 97, 160, 58, 48, 0, 2, 51, 19, 19, 48, 13, 4, 232, 180, 129, 129, 137,
    57, 130, 13, 18, 55, 52, 48, 53, 53, 98, 80, 48, 96, 160, 3, 40, 45, 46, 73, 44, 2, 90, 207, 48,
    50, 65, 116, 65, 98, 114, 118, 98, 122, 106, 44, 87, 94, 98, 110, 170, 130, 173, 130, 82, 146,
    18, 87, 89, 106, 81, 113, 102, 126, 30, 136, 7, 78, 29, 74, 92, 12, 163, 96, 20, 140, 130, 81,
    48, 10, 134, 23, 0, 0, 94, 5, 148, 51, 0, 8, 0, 0]

def tomlB : String :=
  "[package]\nname = \"b\"\nversion = \"2.0.0\"\n"

def manifestB : Manifest :=
  { package := ⟨"b", "2.0.0", none, none⟩
    deps := ⟨BTreeMap.empty, BTreeMap.empty, BTreeMap.empty⟩
    target := BTreeMap.empty
    features := BTreeMap.empty }

/-- The readers, on the package `b 2.0.0`. -/
def envB : RepairEnv :=
  { sha256Hex := tableDigest
      [(crateB 0, "d33ff0fc423d60634f0a101cdd4489d44b4b0a9a323618f319facffc1a64b3aa"),
        (crateB 1, "53d64a82a276e838e226e7e72385f1c6756ab7521dd8b34bdce9e365259bdf92")]
    entries := fun bs =>
      if bs = crateB 0 ∨ bs = crateB 1 then
        .ok [.ok ⟨.ok [.normal "b-2.0.0", .normal "Cargo.toml"], .ok tomlB⟩]
      else .error "invalid gzip header"
    fromToml := fun toml => if toml = tomlB then .ok manifestB else .error "TOML parse error"
    fromSlice := fun bs => (Json.parse bs).elim (.error "expected value") .ok }

theorem envB_readsRecords : envB.ReadsRecords := by
  intro e
  simp [envB, entryLine, Json.parse_render]

/-- An index with one old record, written before records had a checksum. -/
def oldRecord (key name vers : String) : Objects :=
  Map.insert ∅ (.index, key)
    (utf8 ("\x7b\"name\":\"" ++ name ++ "\",\"vers\":\"" ++ vers ++ "\"\x7d\n"))

/-- The package is stored under its name. -/
def settledStore : Objects :=
  (oldRecord "1/b" "b" "2.0.0").insert (.crates, "b/2.0.0") (crateB 0)

/-- The package is stored under another name as well. -/
def unsettledStore : Objects :=
  ((oldRecord "1/a" "a" "1.0.0").insert (.crates, "a/1.0.0") (crateB 0)).insert
    (.crates, "b/2.0.0") (crateB 1)

theorem isListing_settled : IsListing settledStore ["1/b"] := by
  refine ⟨List.nodup_singleton _, fun key => ?_⟩
  simp [settledStore, oldRecord, Map.isSome_insert]

theorem isListing_unsettled : IsListing unsettledStore ["1/a"] := by
  refine ⟨List.nodup_singleton _, fun key => ?_⟩
  simp [unsettledStore, oldRecord, Map.isSome_insert]

/-- A run removes no object and adds none. -/
theorem IsListing.afterRepair {E : RepairEnv} {ownRegistry : String} {s : Objects}
    {keys : List String} (h : IsListing s keys) (apply : Bool) (keys' : List String) :
    IsListing (afterRepair E ownRegistry apply keys' s) keys := by
  refine ⟨h.nodup, fun key => ?_⟩
  rw [h.mem_iff]
  simp only [CargoRegistry.afterRepair]
  split <;> simp

/-- One old record for `b 2.0.0`, which is stored under its name: the second run does nothing. -/
theorem repair_idempotent_settled :
    IsListing settledStore ["1/b"] ∧
      ∃ report₁ s₁, (run envB "https://registry.aivcs.io" true (.ok ["1/b"])).run exec settledStore =
          (.ok report₁, s₁) ∧
        ∃ report₂ s₂, (run envB "https://registry.aivcs.io" true (.ok ["1/b"])).run exec s₁ =
            (.ok report₂, s₂) ∧
          report₂.repaired = [] ∧ s₂ = s₁ := by
  have hsettled : Settled envB "https://registry.aivcs.io" settledStore := by
    apply settled_of_ownKey
    intro key bytes yanked e hget hrebuild
    obtain ⟨rfl, rfl⟩ : key = "b/2.0.0" ∧ crateB 0 = bytes := by
      simpa [settledStore, oldRecord, Map.insert_apply] using hget
    obtain rfl : manifestEntry envB manifestB (crateB 0) "https://registry.aivcs.io" yanked = e :=
      Except.ok.inj hrebuild
    have hkey : "b/2.0.0" = crateKey "b" "2.0.0" := by decide +kernel
    exact hkey
  obtain ⟨report₁, s₁, hrun₁, hsecond⟩ := repair_idempotent_iff envB envB_readsRecords
    "https://registry.aivcs.io" settledStore ["1/b"] isListing_settled
  have hlisting : IsListing s₁ ["1/b"] := by
    obtain ⟨report, hspec, -⟩ :=
      run_spec envB "https://registry.aivcs.io" true isListing_settled.nodup settledStore
    obtain rfl := congrArg Prod.snd (hspec.symm.trans hrun₁)
    exact isListing_settled.afterRepair true ["1/b"]
  obtain ⟨report₂, s₂, hrun₂, hiff⟩ := hsecond true ["1/b"] hlisting
  exact ⟨isListing_settled, report₁, s₁, hrun₁, report₂, s₂, hrun₂, hiff.mpr hsettled⟩

/-- The package `b 2.0.0` is stored for `a 1.0.0`, and in other bytes for `b 2.0.0`.  The first run takes
the record of `a` over from the one artifact, the second from the other. -/
theorem repair_not_idempotent :
    IsListing unsettledStore ["1/a"] ∧
      ∃ report₁ s₁, (run envB "https://registry.aivcs.io" true (.ok ["1/a"])).run exec unsettledStore =
          (.ok report₁, s₁) ∧
        report₁.failed = [] ∧ IsListing s₁ ["1/a"] ∧
        ∃ report₂ s₂, (run envB "https://registry.aivcs.io" true (.ok ["1/a"])).run exec s₁ =
            (.ok report₂, s₂) ∧
          report₂.repaired = ["b@2.0.0"] ∧ s₂ ≠ s₁ := by
  obtain ⟨report₁, hrun₁, hrepaired₁⟩ :=
    run_spec envB "https://registry.aivcs.io" true isListing_unsettled.nodup unsettledStore
  obtain ⟨report₂, hrun₂, hrepaired₂⟩ :=
    run_spec envB "https://registry.aivcs.io" true isListing_unsettled.nodup
      (afterRepair envB "https://registry.aivcs.io" true ["1/a"] unsettledStore)
  refine ⟨isListing_unsettled, report₁, _, hrun₁, ?_, isListing_unsettled.afterRepair true ["1/a"],
    report₂, _, hrun₂, ?_, ?_⟩
  · have hfailed : ((run envB "https://registry.aivcs.io" true (.ok ["1/a"])).run exec
        unsettledStore).1.toOption.map RepairReport.failed = some [] := by
      decide +kernel
    rw [hrun₁] at hfailed
    exact Option.some.inj hfailed
  · rw [hrepaired₂]
    decide +kernel
  · intro heq
    have hbody := congrFun heq (.index, "1/a")
    exact absurd hbody (by decide +kernel)

end CargoRegistry
end Aivcs
