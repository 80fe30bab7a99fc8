import Aivcs.CargoRegistry.Consistency
import Aivcs.Lib.Log

/-!
# CargoRegistry.Concurrency — index records of publishes that run at the same time

Any number of publish requests interleave, one store call at a time, on a store that does not fail.
Neither the check before the artifact nor the read before the index write is atomic with the write
it is for.  In every order of the calls in which nobody writes the object of a request between its check
or read and its write, a publish that was answered `200` has exactly one record, with the checksum of the
stored artifact.

The proof follows each request through its stages.  What its last call has found in the store is still
there when it writes; from the artifact write on a request has its key to itself, and the records of that
key are none until its index write and one from then on.
-/

namespace Aivcs
namespace CargoRegistry

open Aivcs.Lib
open Aivcs.Lib.Interleaving

variable {R : Registry} {s : Objects} {m m' : PublishMeta} {crateBytes : Bytes}

/-! ## What is asked of a run -/

/-- The records of the index object of a name. -/
def indexRecords (s : Objects) (name : String) : List Record :=
  match indexKey name with
  | none => []
  | some key => recordsIn ((s (.index, key)).getD [])

/-- Those of one version. -/
def recordsOf (s : Objects) (name vers : String) : List Record :=
  (indexRecords s name).filter fun r => r.name = name ∧ r.vers = vers

/-- The version of the request is stored, with exactly one record, which has the checksum of what is
stored. -/
def RecordedOnce (R : Registry) (s : Objects) (req : PublishRequest) : Prop :=
  ∃ m crateBytes artifact, payload? R req = some (m, crateBytes) ∧
    s (.crates, crateKey m.name m.vers) = some artifact ∧
    recordsOf s m.name m.vers =
      [{ name := m.name, vers := m.vers, cksum := some (R.sha256Hex artifact) }]

/-- The call writes the object. -/
def PutsTo (bucket : Bucket) (key : String) : StoreOp → Prop
  | .put bucket' key' _ => bucket' = bucket ∧ key' = key
  | _ => False

/-- The calls are writes of one object. -/
def WriteSameObject : StoreOp → StoreOp → Prop
  | .put bucket key _, other => PutsTo bucket key other
  | _, _ => False

instance (bucket : Bucket) (key : String) : (op : StoreOp) → Decidable (PutsTo bucket key op)
  | .put bucket' key' _ => inferInstanceAs (Decidable (bucket' = bucket ∧ key' = key))
  | .get _ _ => inferInstanceAs (Decidable False)
  | .keyExists _ _ => inferInstanceAs (Decidable False)

instance : (op other : StoreOp) → Decidable (WriteSameObject op other)
  | .put bucket key _, other => inferInstanceAs (Decidable (PutsTo bucket key other))
  | .get _ _, _ => inferInstanceAs (Decidable False)
  | .keyExists _ _, _ => inferInstanceAs (Decidable False)

/-- A call leaves the objects it does not write. -/
theorem exec_of_not_putsTo {bucket : Bucket} {key : String} {op : StoreOp} (h : ¬ PutsTo bucket key op) :
    (exec op s).2 (bucket, key) = s (bucket, key) := by
  cases op with
  | get bucket' key' =>
      rw [exec]
      cases s (bucket', key') <;> rfl
  | put bucket' key' body =>
      have hne : (bucket, key) ≠ (bucket', key') := by
        rintro ⟨⟩
        exact h ⟨rfl, rfl⟩
      exact Map.insert_of_ne _ _ hne
  | keyExists bucket' key' =>
      rfl

/-- The requests at work on a store, each at its beginning. -/
def publishers {ι : Type} (R : Registry) (reqs : ι → PublishRequest) (s : Objects) :
    Config StoreOp StoreOp.Ans Answer Objects ι :=
  { store := s, procs := fun i => publish R (reqs i) }

/-! ## What a request has to itself -/

/-- The artifact of the version is the given one and its key has these records. -/
def Filed (s : Objects) (m : PublishMeta) (crateBytes : Bytes) (rs : List Record) : Prop :=
  s (.crates, crateKey m.name m.vers) = some crateBytes ∧
    (indexRecords s m.name).filter (fun r => r.key = crateKey m.name m.vers) = rs

/-- A new artifact is filed, without records. -/
theorem filed_put_artifact (hback : Backed s)
    (habsent : s (.crates, crateKey m.name m.vers) = none) :
    Filed (s.insert (.crates, crateKey m.name m.vers) crateBytes) m crateBytes [] := by
  refine ⟨Map.insert_self _ _ _, ?_⟩
  rw [List.filter_eq_nil_iff]
  intro r hr hkey
  have hkey' : r.key = crateKey m.name m.vers := by simpa using hkey
  unfold indexRecords at hr
  cases hidx : indexKey m.name with
  | none =>
      simp [hidx] at hr
  | some key =>
      simp only [hidx] at hr
      rw [Map.insert_of_ne _ _ (by simp)] at hr
      cases hobj : s (.index, key) with
      | none =>
          simp [hobj, recordsIn] at hr
      | some body =>
          -- A record of this key would have its artifact in the store.
          have hsome := hback key body hobj r (by simpa [hobj] using hr)
          rw [hkey', habsent] at hsome
          cases hsome

/-- The artifact of another version changes nothing. -/
theorem Filed.put_artifact {rs : List Record} (h : Filed s m crateBytes rs) {key : String}
    (body : Bytes) (habsent : s (.crates, key) = none) :
    Filed (s.insert (.crates, key) body) m crateBytes rs := by
  -- The key is absent and this artifact is there.
  have hne : crateKey m.name m.vers ≠ key := by
    rintro rfl
    rw [h.1] at habsent
    cases habsent
  refine ⟨?_, ?_⟩
  · rw [Map.insert_of_ne _ _ (by simp [hne])]
    exact h.1
  · rw [← h.2]
    unfold indexRecords
    cases hidx : indexKey m.name with
    | none =>
        rfl
    | some k =>
        simp only
        rw [Map.insert_of_ne _ _ (by simp)]

/-- The records of a name after a line has been added to an index object. -/
theorem indexRecords_put_index {key : String} {body : Bytes} {r : Record}
    (hbody : recordsIn body = recordsIn ((s (.index, key)).getD []) ++ [r]) (name : String) :
    indexRecords (s.insert (.index, key) body) name =
      if indexKey name = some key then indexRecords s name ++ [r] else indexRecords s name := by
  unfold indexRecords
  cases hidx : indexKey name with
  | none =>
      simp
  | some k =>
      by_cases hk : k = key
      · subst hk
        simp [hbody]
      · simp only [Option.some.injEq, hk, if_false]
        rw [Map.insert_of_ne _ _ (by simp [hk])]

/-- The record of another key changes nothing. -/
theorem Filed.put_index {rs : List Record} (h : Filed s m crateBytes rs) {key : String}
    {body : Bytes} {r : Record}
    (hbody : recordsIn body = recordsIn ((s (.index, key)).getD []) ++ [r])
    (hne : r.key ≠ crateKey m.name m.vers) :
    Filed (s.insert (.index, key) body) m crateBytes rs := by
  refine ⟨?_, ?_⟩
  · rw [Map.insert_of_ne _ _ (by simp)]
    exact h.1
  · rw [← h.2, indexRecords_put_index hbody]
    split_ifs
    · rw [List.filter_append]
      simp [hne]
    · rfl

/-- The record of the version itself is added. -/
theorem Filed.put_record {rs : List Record} (h : Filed s m crateBytes rs) {key : String}
    (hkey : indexKey m.name = some key) {body : Bytes}
    (hbody : recordsIn body =
      recordsIn ((s (.index, key)).getD []) ++ [recordFor R m crateBytes]) :
    Filed (s.insert (.index, key) body) m crateBytes (rs ++ [recordFor R m crateBytes]) := by
  refine ⟨?_, ?_⟩
  · rw [Map.insert_of_ne _ _ (by simp)]
    exact h.1
  · rw [indexRecords_put_index hbody, if_pos hkey, List.filter_append, h.2]
    simp [recordFor, Record.key]

/-- One record of the key is one record of the version. -/
theorem Filed.recordsOf_eq (h : Filed s m crateBytes [recordFor R m crateBytes]) :
    recordsOf s m.name m.vers = [recordFor R m crateBytes] := by
  -- The records of the version are among those of its key, so filtering by the key first loses none.
  have hsub : recordsOf s m.name m.vers =
      ((indexRecords s m.name).filter fun r => r.key = crateKey m.name m.vers).filter
        fun r => r.name = m.name ∧ r.vers = m.vers := by
    unfold recordsOf
    rw [List.filter_filter]
    apply List.filter_congr
    intro r _
    by_cases hr : r.name = m.name ∧ r.vers = m.vers
    · simp [hr, Record.key]
    · simp [hr]
  rw [hsub, h.2]
  simp [recordFor]

/-! ## Stages of a request -/

variable {ι : Type} [DecidableEq ι]

/-- How far a request has come. -/
inductive Stage where
  | asking
  | uploading
  | reading
  | writing (existing : Bytes)
  | answered (a : Answer)

/-- What is left to do at a stage. -/
def Stage.program (R : Registry) (m : PublishMeta) (crateBytes : Bytes) : Stage → StoreProc Answer
  | .asking => publishCrate R m crateBytes
  | .uploading => uploadArtifact R m crateBytes
  | .reading => appendRecord R m crateBytes
  | .writing existing =>
      match indexKey m.name with
      | none => .ret .panicked
      | some key => writeIndex R m crateBytes key existing
  | .answered a => .ret a

/-- The records of its key at a stage at which the request has the key to itself. -/
def Stage.filed? (R : Registry) (m : PublishMeta) (crateBytes : Bytes) : Stage → Option (List Record)
  | .asking => none
  | .uploading => none
  | .reading => some []
  | .writing _ => some []
  | .answered a => if a = published then some [recordFor R m crateBytes] else none

def Unpublished (m : PublishMeta) (s : Objects) : Prop :=
  s (.crates, crateKey m.name m.vers) = none

def IndexReads (key : String) (existing : Bytes) (s : Objects) : Prop :=
  (s (.index, key)).getD [] = existing

/-- What the last call of a request has found in the store and its next one relies on. -/
def Stage.Found (m : PublishMeta) (log : List (Entry StoreOp StoreOp.Ans ι)) (i : ι) (s : Objects) :
    Stage → Prop
  | .uploading => Kept (PutsTo .crates (crateKey m.name m.vers)) (Unpublished m) log i s
  | .writing existing => ∀ key, indexKey m.name = some key →
      Kept (PutsTo .index key) (IndexReads key existing) log i s
  | _ => True

/-- The call of another request leaves what was found, or its write breaks it. -/
theorem Stage.Found.other {log : List (Entry StoreOp StoreOp.Ans ι)} {j : ι} {e : Entry StoreOp StoreOp.Ans ι}
    {stage : Stage} (h : stage.Found m log j s) (hne : e.who ≠ j) :
    stage.Found m (log ++ [e]) j (exec e.op s).2 := by
  cases stage with
  | uploading =>
      refine Kept.other h hne fun hnot habsent => ?_
      rw [Unpublished, exec_of_not_putsTo hnot]
      exact habsent
  | writing existing =>
      refine fun key hkey => Kept.other (h key hkey) hne fun hnot hsame => ?_
      rw [IndexReads, exec_of_not_putsTo hnot]
      exact hsame
  | asking => trivial
  | reading => trivial
  | answered a => trivial

/-- Each request is at its stage, has filed what it should have, and shares its key with no other
request that has filed something. -/
structure Coherent (R : Registry) (reqs : ι → PublishRequest) (stages : ι → Stage)
    (log : List (Entry StoreOp StoreOp.Ans ι)) (c : Config StoreOp StoreOp.Ans Answer Objects ι) : Prop where
  backed : Backed c.store
  rejected : ∀ i, payload? R (reqs i) = none → ∃ a, c.procs i = .ret a ∧ a ≠ published
  atStage : ∀ i m crateBytes, payload? R (reqs i) = some (m, crateBytes) →
    c.procs i = (stages i).program R m crateBytes
  found : ∀ i m crateBytes, payload? R (reqs i) = some (m, crateBytes) →
    (stages i).Found m log i c.store
  filed : ∀ i m crateBytes rs, payload? R (reqs i) = some (m, crateBytes) →
    (stages i).filed? R m crateBytes = some rs → Filed c.store m crateBytes rs
  exclusive : ∀ i j m crateBytes m' crateBytes', i ≠ j →
    payload? R (reqs i) = some (m, crateBytes) → payload? R (reqs j) = some (m', crateBytes') →
    ((stages i).filed? R m crateBytes).isSome = true →
    ((stages j).filed? R m' crateBytes').isSome = true →
    crateKey m.name m.vers ≠ crateKey m'.name m'.vers

section Coherent

variable {reqs : ι → PublishRequest} {stages : ι → Stage} {log : List (Entry StoreOp StoreOp.Ans ι)}
  {c : Config StoreOp StoreOp.Ans Answer Objects ι} {i : ι} {op : StoreOp}
  {next : StoreOp.Ans op → StoreProc Answer}

theorem coherent_publishers (hs : Backed s) :
    Coherent R reqs (fun _ => .asking) [] (publishers R reqs s) where
  backed := hs
  rejected := fun i hp => publish_of_no_payload hp
  atStage := fun i m crateBytes hp => publish_of_payload hp
  found := fun i m crateBytes _ => trivial
  filed := by
    intro i m crateBytes rs _ hrs
    cases hrs
  exclusive := by
    intro i j m crateBytes m' crateBytes' _ _ _ hi
    cases hi

/-- One request makes a call and moves on to a new stage: it has to have found and filed what the stage
says, keep its key to itself and leave alone what others have filed. -/
theorem Coherent.advance (h : Coherent R reqs stages log c)
    (hp : payload? R (reqs i) = some (m, crateBytes)) (stage : Stage) {s' : Objects}
    (hstore : (exec op c.store).2 = s') (hback : Backed s')
    (hfound : stage.Found m (log ++ [⟨i, op, (exec op c.store).1⟩]) i s')
    (hfiled : ∀ rs, stage.filed? R m crateBytes = some rs → Filed s' m crateBytes rs)
    (hexcl : (stage.filed? R m crateBytes).isSome = true → ∀ j m' crateBytes', i ≠ j →
      payload? R (reqs j) = some (m', crateBytes') →
      ((stages j).filed? R m' crateBytes').isSome = true →
      crateKey m.name m.vers ≠ crateKey m'.name m'.vers)
    (hframe : ∀ j m' crateBytes' rs, i ≠ j → payload? R (reqs j) = some (m', crateBytes') →
      (stages j).filed? R m' crateBytes' = some rs → Filed c.store m' crateBytes' rs →
      Filed s' m' crateBytes' rs) :
    Coherent R reqs (Function.update stages i stage) (log ++ [⟨i, op, (exec op c.store).1⟩])
      { store := s', procs := Function.update c.procs i (stage.program R m crateBytes) } := by
  have hdet : ∀ {m₂ b₂}, payload? R (reqs i) = some (m₂, b₂) → m₂ = m ∧ b₂ = crateBytes := by
    intro m₂ b₂ hp₂
    rw [hp] at hp₂
    cases hp₂
    exact ⟨rfl, rfl⟩
  -- Each field for the request that moved and for the others, which keep their stage and program.
  refine ⟨hback, ?_, ?_, ?_, ?_, ?_⟩
  · intro j hj
    have hne : j ≠ i := by
      rintro rfl
      rw [hp] at hj
      cases hj
    simpa [Function.update_of_ne hne] using h.rejected j hj
  · intro j m₂ b₂ hp₂
    by_cases hj : j = i
    · subst hj
      obtain ⟨rfl, rfl⟩ := hdet hp₂
      simp
    · simpa [Function.update_of_ne hj] using h.atStage j m₂ b₂ hp₂
  · intro j m₂ b₂ hp₂
    by_cases hj : j = i
    · subst hj
      obtain ⟨rfl, rfl⟩ := hdet hp₂
      simpa using hfound
    · have hother := (h.found j m₂ b₂ hp₂).other
        (e := ⟨i, op, (exec op c.store).1⟩) (Ne.symm hj)
      simpa [Function.update_of_ne hj, hstore] using hother
  · intro j m₂ b₂ rs hp₂ hrs
    by_cases hj : j = i
    · subst hj
      obtain ⟨rfl, rfl⟩ := hdet hp₂
      exact hfiled rs (by simpa using hrs)
    · rw [Function.update_of_ne hj] at hrs
      exact hframe j m₂ b₂ rs (Ne.symm hj) hp₂ hrs (h.filed j m₂ b₂ rs hp₂ hrs)
  · intro j k m₂ b₂ m₃ b₃ hjk hp₂ hp₃ hj hk
    by_cases hji : j = i
    · subst hji
      obtain ⟨rfl, rfl⟩ := hdet hp₂
      rw [Function.update_self] at hj
      rw [Function.update_of_ne (Ne.symm hjk)] at hk
      exact hexcl hj k m₃ b₃ hjk hp₃ hk
    · rw [Function.update_of_ne hji] at hj
      by_cases hki : k = i
      · subst hki
        obtain ⟨rfl, rfl⟩ := hdet hp₃
        rw [Function.update_self] at hk
        exact Ne.symm (hexcl hk j m₂ b₂ (Ne.symm hji) hp₂ hj)
      · rw [Function.update_of_ne hki] at hk
        exact h.exclusive j k m₂ b₂ m₃ b₃ hjk hp₂ hp₃ hj hk

/-- The new artifact backs what was backed. -/
theorem Backed.put_artifact (h : Backed s) (key : String) (body : Bytes) :
    Backed (s.insert (.crates, key) body) := by
  intro k old hold r hr
  rw [Map.insert_of_ne _ _ (by simp)] at hold
  exact (Map.isSome_insert _ _ _ _).2 (Or.inr (h k old hold r hr))

/-- A new record of a stored artifact is backed. -/
theorem Backed.put_index (h : Backed s) {key : String} {body : Bytes} {r : Record}
    (hbody : recordsIn body = recordsIn ((s (.index, key)).getD []) ++ [r])
    (hr : (s (.crates, r.key)).isSome = true) : Backed (s.insert (.index, key) body) := by
  intro k old hold r' hr'
  rw [Map.insert_of_ne _ _ (by simp)]
  rcases Map.insert_eq_some hold with ⟨hk, rfl⟩ | ⟨-, hold⟩
  · rw [hbody] at hr'
    rcases List.mem_append.1 hr' with hr' | hr'
    · cases hobj : s (.index, key) with
      | none =>
          simp [hobj, recordsIn] at hr'
      | some b =>
          exact h key b hobj r' (by simpa [hobj] using hr')
    · rw [List.mem_singleton.1 hr']
      exact hr
  · exact h k old hold r' hr'

/-- The check writes nothing, and a request that goes on has found its key absent. -/
theorem Coherent.ask (h : Coherent R reqs stages log c)
    (hp : payload? R (reqs i) = some (m, crateBytes)) (hst : stages i = .asking)
    (hop : op = .keyExists .crates (crateKey m.name m.vers)) :
    ∃ stages', Coherent R reqs stages' (log ++ [⟨i, op, (exec op c.store).1⟩]) (c.fire exec i) := by
  have hprog := h.atStage i m crateBytes hp
  rw [hst] at hprog
  have hstore : (exec op c.store).2 = c.store := by rw [hop, exec]
  -- Both ways on lead to a stage at which nothing is filed, over the same store.
  have key : ∀ stage : Stage, stage.filed? R m crateBytes = none →
      stage.Found m (log ++ [⟨i, op, (exec op c.store).1⟩]) i c.store →
      c.fire exec i = { store := c.store
                        procs := Function.update c.procs i (stage.program R m crateBytes) } →
      ∃ stages', Coherent R reqs stages' (log ++ [⟨i, op, (exec op c.store).1⟩]) (c.fire exec i) := by
    intro stage hnone hfound hfire
    rw [hfire]
    refine ⟨_, h.advance hp stage hstore h.backed hfound ?_ ?_ ?_⟩
    · intro rs hrs
      rw [hnone] at hrs
      cases hrs
    · intro hsome
      rw [hnone] at hsome
      cases hsome
    · intro j m' crateBytes' rs _ _ _ hfiled
      exact hfiled
  cases hobj : c.store (.crates, crateKey m.name m.vers) with
  | some old =>
      refine key (.answered (alreadyPublished m)) ?_ trivial ?_
      · simp [Stage.filed?, alreadyPublished, published, reply]
      · simp [Config.fire, hprog, Stage.program, publishCrate, Store.keyExists, exec, hobj]
  | none =>
      refine key .uploading rfl (fun _ => hobj) ?_
      simp [Config.fire, hprog, Stage.program, publishCrate, Store.keyExists, exec, hobj]

/-- The artifact write: its key is still absent, so nobody else has filed anything under it. -/
theorem Coherent.upload (h : Coherent R reqs stages log c)
    (hp : payload? R (reqs i) = some (m, crateBytes)) (hst : stages i = .uploading)
    (hop : op = .put .crates (crateKey m.name m.vers) crateBytes)
    (hlog : Undisturbed WriteSameObject (log ++ [⟨i, op, (exec op c.store).1⟩])) :
    ∃ stages', Coherent R reqs stages' (log ++ [⟨i, op, (exec op c.store).1⟩]) (c.fire exec i) := by
  have hprog := h.atStage i m crateBytes hp
  have hfound := h.found i m crateBytes hp
  rw [hst] at hprog hfound
  have habsent : Unpublished m c.store := by
    subst hop
    exact hlog.holds hfound
  have hstore : (exec op c.store).2 = c.store.insert (.crates, crateKey m.name m.vers) crateBytes := by
    rw [hop, exec]
  have hfire : c.fire exec i =
      { store := c.store.insert (.crates, crateKey m.name m.vers) crateBytes
        procs := Function.update c.procs i (Stage.reading.program R m crateBytes) } := by
    simp [Config.fire, hprog, Stage.program, uploadArtifact, Store.put, exec]
  rw [hfire]
  refine ⟨_, h.advance hp .reading hstore (h.backed.put_artifact _ _) trivial ?_ ?_ ?_⟩
  · rintro rs ⟨⟩
    exact filed_put_artifact h.backed habsent
  · -- Whoever has filed something under a key has its artifact stored.
    intro _ j m' crateBytes' _ hp' hsome heq
    rcases Option.isSome_iff_exists.1 hsome with ⟨rs, hrs⟩
    have hstored := (h.filed j m' crateBytes' rs hp' hrs).1
    rw [← heq, habsent] at hstored
    cases hstored
  · intro j m' crateBytes' rs _ _ _ hfiled
    exact hfiled.put_artifact crateBytes habsent

/-- Reading the index object changes nothing that is filed. -/
theorem Coherent.read (h : Coherent R reqs stages log c)
    (hp : payload? R (reqs i) = some (m, crateBytes)) (hst : stages i = .reading) {key : String}
    (hkey : indexKey m.name = some key) (hop : op = .get .index key) :
    ∃ stages', Coherent R reqs stages' (log ++ [⟨i, op, (exec op c.store).1⟩]) (c.fire exec i) := by
  have hprog := h.atStage i m crateBytes hp
  rw [hst] at hprog
  have hstore : (exec op c.store).2 = c.store := by
    rw [hop, exec]
    cases c.store (.index, key) <;> rfl
  -- The request goes on with what it has read, nothing where there is no object yet.
  let stage := Stage.writing ((c.store (.index, key)).getD [])
  have hfire : c.fire exec i =
      { store := c.store
        procs := Function.update c.procs i (stage.program R m crateBytes) } := by
    cases hobj : c.store (.index, key) <;>
      simp [Config.fire, hprog, Stage.program, appendRecord, hkey, readIndex, Store.get, exec, hobj,
        stage]
  have hfound : stage.Found m (log ++ [⟨i, op, (exec op c.store).1⟩]) i c.store := by
    intro key' hkey' _
    rw [hkey] at hkey'
    cases hkey'
    rfl
  rw [hfire]
  refine ⟨_, h.advance hp stage hstore h.backed hfound ?_ ?_ ?_⟩
  · rintro rs ⟨⟩
    exact h.filed i m crateBytes [] hp (by rw [hst]; rfl)
  · intro _ j m' crateBytes' hij hp' hsome
    exact h.exclusive i j m crateBytes m' crateBytes' hij hp hp' (by rw [hst]; rfl) hsome
  · intro j m' crateBytes' rs _ _ _ hfiled
    exact hfiled

/-- The index write: the object is still the one that was read, and the record of the request's own key is
added to it. -/
theorem Coherent.write (h : Coherent R reqs stages log c)
    (hp : payload? R (reqs i) = some (m, crateBytes)) {existing : Bytes}
    (hst : stages i = .writing existing) {key : String} (hkey : indexKey m.name = some key)
    (hop : op = .put .index key (appendLine existing (recordLine R m crateBytes)))
    (hlog : Undisturbed WriteSameObject (log ++ [⟨i, op, (exec op c.store).1⟩])) :
    ∃ stages', Coherent R reqs stages' (log ++ [⟨i, op, (exec op c.store).1⟩]) (c.fire exec i) := by
  have hprog := h.atStage i m crateBytes hp
  have hfound := h.found i m crateBytes hp
  rw [hst] at hprog hfound
  -- Nobody has written the object since it was read.
  have hsame : IndexReads key existing c.store := by
    subst hop
    exact hlog.holds (hfound key hkey)
  have hstore : (exec op c.store).2 =
      c.store.insert (.index, key) (appendLine existing (recordLine R m crateBytes)) := by
    rw [hop, exec]
  have hfire : c.fire exec i =
      { store := c.store.insert (.index, key) (appendLine existing (recordLine R m crateBytes))
        procs := Function.update c.procs i
          ((Stage.answered published).program R m crateBytes) } := by
    simp [Config.fire, hprog, Stage.program, hkey, writeIndex, Store.put, exec]
  -- So the new object has the records of the old one and the request's own.
  have hbody : recordsIn (appendLine existing (recordLine R m crateBytes)) =
      recordsIn ((c.store (.index, key)).getD []) ++ [recordFor R m crateBytes] := by
    rw [recordsIn_appendLine, show (c.store (.index, key)).getD [] = existing from hsame]
  have hfiled : Filed c.store m crateBytes [] :=
    h.filed i m crateBytes [] hp (by rw [hst]; rfl)
  have hexcl : ∀ j m' crateBytes', i ≠ j → payload? R (reqs j) = some (m', crateBytes') →
      ((stages j).filed? R m' crateBytes').isSome = true →
      crateKey m.name m.vers ≠ crateKey m'.name m'.vers := by
    intro j m' crateBytes' hij hp' hsome
    exact h.exclusive i j m crateBytes m' crateBytes' hij hp hp' (by rw [hst]; rfl) hsome
  have hstored : (c.store (.crates, (recordFor R m crateBytes).key)).isSome = true := by
    show (c.store (.crates, crateKey m.name m.vers)).isSome = true
    rw [hfiled.1]
    rfl
  rw [hfire]
  refine ⟨_, h.advance hp (.answered published) hstore (h.backed.put_index hbody hstored) trivial ?_
    (fun _ => hexcl) ?_⟩
  · intro rs hrs
    obtain rfl : [recordFor R m crateBytes] = rs := by simpa [Stage.filed?] using hrs
    exact hfiled.put_record hkey hbody
  · intro j m' crateBytes' rs hij hp' hrs hfiled'
    exact hfiled'.put_index hbody (hexcl j m' crateBytes' hij hp' (by rw [hrs]; rfl))

/-- One call of one request: the stage it is at says which call it is. -/
theorem Coherent.call (h : Coherent R reqs stages log c) (hcall : c.procs i = .call op next)
    (hlog : Undisturbed WriteSameObject (log ++ [⟨i, op, (exec op c.store).1⟩])) :
    ∃ stages', Coherent R reqs stages' (log ++ [⟨i, op, (exec op c.store).1⟩]) (c.fire exec i) := by
  cases hp : payload? R (reqs i) with
  | none =>
      -- A rejected request has answered and makes no call.
      rcases h.rejected i hp with ⟨a, ha, -⟩
      rw [hcall] at ha
      cases ha
  | some mb =>
      rcases mb with ⟨m, crateBytes⟩
      have hprog := h.atStage i m crateBytes hp
      rw [hcall] at hprog
      -- The call that was made is the first one of the program of the stage.
      cases hst : stages i with
      | asking =>
          rw [hst] at hprog
          injection hprog with hop
          exact h.ask hp hst hop
      | uploading =>
          rw [hst] at hprog
          injection hprog with hop
          exact h.upload hp hst hop hlog
      | reading =>
          cases hkey : indexKey m.name with
          | none =>
              simp [hst, Stage.program, appendRecord, hkey] at hprog
          | some key =>
              simp only [hst, Stage.program, appendRecord, hkey] at hprog
              injection hprog with hop
              exact h.read hp hst hkey hop
      | writing existing =>
          cases hkey : indexKey m.name with
          | none =>
              simp [hst, Stage.program, hkey] at hprog
          | some key =>
              simp only [hst, Stage.program, hkey] at hprog
              injection hprog with hop
              exact h.write hp hst hkey hop hlog
      | answered a =>
          rw [hst] at hprog
          cases hprog

theorem exists_coherent (hs : Backed s) (h : Logged exec (publishers R reqs s) log c)
    (hlog : Undisturbed WriteSameObject log) : ∃ stages, Coherent R reqs stages log c := by
  induction h with
  | start =>
      exact ⟨_, coherent_publishers hs⟩
  | call _ i op next hcall ih =>
      obtain ⟨stages, h⟩ := ih hlog.left
      exact h.call hcall hlog

/-- A request that was answered `200` has written its record. -/
theorem Coherent.recordedOnce (h : Coherent R reqs stages log c) (hret : c.procs i = .ret published) :
    RecordedOnce R c.store (reqs i) := by
  cases hp : payload? R (reqs i) with
  | none =>
      rcases h.rejected i hp with ⟨a, ha, hne⟩
      rw [hret] at ha
      cases ha
      exact absurd rfl hne
  | some mb =>
      rcases mb with ⟨m, crateBytes⟩
      have hprog := h.atStage i m crateBytes hp
      rw [hret] at hprog
      have hfiled : (stages i).filed? R m crateBytes = some [recordFor R m crateBytes] := by
        -- A request that has returned is past its last call, and only the last stage answers `200`.
        cases hst : stages i with
        | asking =>
            rw [hst] at hprog
            cases hprog
        | uploading =>
            rw [hst] at hprog
            cases hprog
        | reading =>
            cases hkey : indexKey m.name with
            | none =>
                simp [hst, Stage.program, appendRecord, hkey, published] at hprog
            | some key =>
                simp only [hst, Stage.program, appendRecord, hkey] at hprog
                cases hprog
        | writing existing =>
            cases hkey : indexKey m.name with
            | none =>
                simp [hst, Stage.program, hkey, published] at hprog
            | some key =>
                simp only [hst, Stage.program, hkey] at hprog
                cases hprog
        | answered a =>
            rw [hst] at hprog
            cases hprog
            simp [Stage.filed?]
      have hend := h.filed i m crateBytes _ hp hfiled
      exact ⟨m, crateBytes, crateBytes, hp, hend.1, hend.recordsOf_eq⟩

end Coherent

/-- In every interleaving in which no request writes an object between the check or read of another and its
write of that object, a publish that was answered `200` has exactly one record from then on, with the
checksum of the stored artifact. -/
theorem published_recorded_once (R : Registry) (reqs : ι → PublishRequest) (s : Objects) (hs : Backed s)
    (log : List (Entry StoreOp StoreOp.Ans ι)) (c : Config StoreOp StoreOp.Ans Answer Objects ι)
    (hrun : Logged exec (publishers R reqs s) log c) (hlog : Undisturbed WriteSameObject log) (i : ι)
    (hret : c.procs i = .ret published) : RecordedOnce R c.store (reqs i) := by
  obtain ⟨stages, h⟩ := exists_coherent hs hrun hlog
  exact h.recordedOnce hret

/-! ## Two publishes at once -/

/-- Two versions of one crate. -/
def twoVersions : Bool → PublishRequest
  | true => demoRequest "0.1.0" "x"
  | false => demoRequest "0.2.0" "y"

/-- Two artifacts for one version. -/
def twoArtifacts : Bool → PublishRequest
  | true => demoRequest "0.1.0" "x"
  | false => demoRequest "0.1.0" "y"

/-- The requests on an empty store, after the calls of a schedule. -/
def afterCalls (reqs : Bool → PublishRequest) (schedule : List Bool) :
    Config StoreOp StoreOp.Ans Answer Objects Bool :=
  (publishers demoRegistry reqs ∅).fireAll exec schedule

/-- Both requests check and upload at the same time, but the first one reads and writes the index before
the second one reads it. -/
def inSequence : List Bool :=
  [true, false, true, false, true, true, false, false]

/-- Both versions have their record. -/
theorem recorded_once_in_sequence :
    RecordedOnce demoRegistry (afterCalls twoVersions inSequence).store (twoVersions true) ∧
      RecordedOnce demoRegistry (afterCalls twoVersions inSequence).store (twoVersions false) := by
  have hstart : Logged exec (publishers demoRegistry twoVersions ∅) [] _ := .start
  have hrun := hstart.fireAll inSequence
  have hret : ∀ i, ((afterCalls twoVersions inSequence).procs i).result? = some published := by
    decide +kernel
  have hone := fun i => published_recorded_once demoRegistry twoVersions ∅ backed_empty _ _ hrun
    (by decide +kernel) i (Proc.eq_ret_of_result? (hret i))
  exact ⟨hone true, hone false⟩

/-- Every request is answered, and each that was answered `200` has its one record. -/
def AllRecordedOnce (reqs : Bool → PublishRequest)
    (c : Config StoreOp StoreOp.Ans Answer Objects Bool) : Prop :=
  (∀ i, (c.procs i).result?.isSome = true) →
    ∀ i, c.procs i = .ret published → RecordedOnce demoRegistry c.store (reqs i)

/-- A request that was answered `200` and whose version has not one record but `rs`. -/
theorem not_allRecordedOnce {reqs : Bool → PublishRequest}
    {c : Config StoreOp StoreOp.Ans Answer Objects Bool} {i : Bool} {vers : String}
    {artifact : Bytes} {rs : List Record} (hall : ∀ i, (c.procs i).result?.isSome = true)
    (hret : (c.procs i).result? = some published)
    (hp : payload? demoRegistry (reqs i) = some (demoMeta vers, artifact))
    (hrs : recordsOf c.store "demo" vers = rs) (hlen : rs.length ≠ 1) :
    ¬ AllRecordedOnce reqs c := by
  intro h
  rcases h hall i (Proc.eq_ret_of_result? hret) with ⟨m, b, stored, hp', -, hone⟩
  rw [hp] at hp'
  cases hp'
  rw [show recordsOf c.store (demoMeta vers).name (demoMeta vers).vers = rs from hrs] at hone
  rw [hone] at hlen
  exact hlen rfl

/-- Two versions whose requests read the index before either writes it: the first record written is
lost.  Two uploads of one version that both find it absent: both succeed, the second replaces the
artifact, and there are two records. -/
theorem concurrent_publishes_lose_and_duplicate :
    ¬ (∀ c, Steps exec (fun _ _ => True) (publishers demoRegistry twoVersions ∅) c →
      AllRecordedOnce twoVersions c) ∧
    ¬ (∀ c, Steps exec (fun _ _ => True) (publishers demoRegistry twoArtifacts ∅) c →
      AllRecordedOnce twoArtifacts c) := by
  constructor
  · intro h
    have hrun : Steps exec (fun _ _ => True) (publishers demoRegistry twoVersions ∅)
        (afterCalls twoVersions [true, true, true, false, false, false, false, true]) :=
      Steps.of_okAlong (Config.okAlong_of_forall (fun _ _ => trivial) _ _)
    exact @not_allRecordedOnce twoVersions _ false "0.2.0" (utf8 "y") [] (by decide +kernel)
      (by decide +kernel) (by decide +kernel) (by decide +kernel) (by decide) (h _ hrun)
  · intro h
    have hrun : Steps exec (fun _ _ => True) (publishers demoRegistry twoArtifacts ∅)
        (afterCalls twoArtifacts [true, false, true, true, true, false, false, false]) :=
      Steps.of_okAlong (Config.okAlong_of_forall (fun _ _ => trivial) _ _)
    exact @not_allRecordedOnce twoArtifacts _ true "0.1.0" (utf8 "x")
      [{ name := "demo", vers := "0.1.0"
         cksum := some "2d711642b726b04401627ca9fbac32f5c8530fb1903cc4db02258717921a4881" },
        { name := "demo", vers := "0.1.0"
          cksum := some "a1fce4363854ff888cff4b8e7875d600c2682390412a8cf79b37d0b11148b0fa" }]
      (by decide +kernel) (by decide +kernel) (by decide +kernel) (by decide +kernel) (by decide)
      (h _ hrun)

end CargoRegistry
end Aivcs
