import Aivcs.Forge.Store

/-!
# Forge.Sqlx — the Postgres store and how far it refines the in-memory one

`SqlxForgeStore` keeps the same data in tables: a blob row is never replaced (`ON CONFLICT DO
NOTHING`), neither is a commit row, a branch row is.  A commit row holds manifest and parents as JSON
texts.  The tables are partial maps and no statement fails; a column nothing reads
(`updated_at_ms`) is left out.

Both stores implement `atomic_publish`, but only the in-memory one checks anything before it writes.
`atomic_publish_refines_iff` says for which publishes the two agree.
-/

namespace Aivcs
namespace Forge

open Aivcs.Lib

/-! ## Tables -/

/-- A row of `forge_commits`; `(repo, commit_id)` is its key. -/
structure CommitRow where
  treeDigest : String
  /-- `manifest TEXT`, the JSON of the manifest in UTF-8. -/
  manifest : Bytes
  /-- `parents TEXT`, the JSON of the parents in UTF-8. -/
  parents : Bytes
  message : String
  author : String

/-- The four tables. -/
structure SqlxState where
  blobs : Map String Bytes
  commits : Map (String × String) CommitRow
  branches : Map (String × String) String
  repositories : Map String Bool

/-- `MAX_BLOB_BYTES`. -/
def maxBlobBytes : Nat := 1 <<< 30

def checkBlobSize (len : Nat) : Except ForgeError Unit :=
  if len > maxBlobBytes then
    .error (.backend ("blob of " ++ toString len ++ " bytes exceeds the " ++ toString maxBlobBytes ++
      "-byte PostgreSQL BYTEA field limit"))
  else
    .ok ()

/-- The row `put_commit` inserts for a commit. -/
def CommitRow.ofRecord (commit : CommitRecord) : CommitRow :=
  { treeDigest := commit.treeDigest
    manifest := (manifestValue .insertion commit.manifest).render
    parents := (Json.arr (commit.parents.map Json.str)).render
    message := commit.message
    author := commit.author }

/-- The record `get_commit` rebuilds from a row and its key.  (The text of a decoding error is
`serde_json`'s and not modelled.) -/
def CommitRow.toRecord (row : CommitRow) (repo commitId : String) :
    Except ForgeError CommitRecord :=
  match (Json.parse row.manifest).bind manifestOfValue? with
  | none => .error (.backend "manifest")
  | some manifest =>
      match (Json.parse row.parents).bind stringsOfValue? with
      | none => .error (.backend "parents")
      | some parents =>
          .ok { repo := repo
                commitId := commitId
                treeDigest := row.treeDigest
                manifest := manifest
                parents := parents
                message := row.message
                author := row.author }

namespace SqlxState

/-- The tables right after `migrate`. -/
def empty : SqlxState :=
  { blobs := ∅, commits := ∅, branches := ∅, repositories := ∅ }

variable (D : Deployment)

/-! ## The methods -/

def putBlob (bytes : Bytes) (t : SqlxState) : Except ForgeError String × SqlxState :=
  match checkBlobSize bytes.length with
  | .error e => (.error e, t)
  | .ok () =>
      (.ok (D.sha256Hex bytes), { t with blobs := t.blobs.insertNew (D.sha256Hex bytes) bytes })

def getBlob (digest : String) (t : SqlxState) : Except ForgeError (Option Bytes) :=
  .ok (t.blobs digest)

def putCommit (commit : CommitRecord) (t : SqlxState) : Except ForgeError Unit × SqlxState :=
  (.ok (), { t with
    commits := t.commits.insertNew (commit.repo, commit.commitId) (CommitRow.ofRecord commit) })

def getCommit (repo commitId : String) (t : SqlxState) : Except ForgeError (Option CommitRecord) :=
  match t.commits (repo, commitId) with
  | none => .ok none
  | some row => (row.toRecord repo commitId).map some

def setBranch (repo branch commitId : String) (t : SqlxState) : Except ForgeError Unit × SqlxState :=
  (.ok (), { t with branches := t.branches.insert (repo, branch) commitId })

def getBranch (repo branch : String) (t : SqlxState) : Except ForgeError (Option String) :=
  .ok (t.branches (repo, branch))

/-- The `UPDATE .. WHERE head_commit_id = ..` and the `INSERT .. DO NOTHING` of `cas_set_branch`. -/
def casSetBranch (repo branch : String) (expected : Option String) (commitId : String)
    (t : SqlxState) : Except ForgeError Bool × SqlxState :=
  match expected with
  | some head =>
      if t.branches (repo, branch) = some head then
        (.ok true, { t with branches := t.branches.insert (repo, branch) commitId })
      else
        (.ok false, t)
  | none =>
      match t.branches (repo, branch) with
      | none => (.ok true, { t with branches := t.branches.insertNew (repo, branch) commitId })
      | some _ => (.ok false, t)

/-- The first loop of `atomic_publish`. -/
def putBlobs : List Bytes → SqlxState → Except ForgeError Unit × SqlxState
  | [], t => (.ok (), t)
  | blob :: blobs, t =>
      match t.putBlob D blob with
      | (.error e, t) => (.error (.backend ("blob upload failed: " ++ e.toString)), t)
      | (.ok _, t) => putBlobs blobs t

/-- The second loop of `atomic_publish`. -/
def setBranches (repo : String) : List (String × String) → SqlxState →
    Except ForgeError Unit × SqlxState
  | [], t => (.ok (), t)
  | u :: updates, t =>
      match t.setBranch repo u.1 u.2 with
      | (.error e, t) => (.error (.backend ("branch update failed: " ++ e.toString)), t)
      | (.ok (), t) => setBranches repo updates t

/-- `SqlxForgeStore::atomic_publish`: sequential writes, no gate. -/
def atomicPublish (repo : String) (blobs : List Bytes) (commit : CommitRecord)
    (branchUpdates : List (String × String)) (t : SqlxState) :
    Except ForgeError AtomicPublishResult × SqlxState :=
  match t.putBlobs D blobs with
  | (.error e, t) => (.error e, t)
  | (.ok (), t) =>
      match t.putCommit commit with
      | (.error e, t) => (.error (.backend ("commit creation failed: " ++ e.toString)), t)
      | (.ok (), t) =>
          match t.setBranches repo branchUpdates with
          | (.error e, t) => (.error e, t)
          | (.ok (), t) =>
              (.ok { commitId := commit.commitId
                     blobsStored := blobs.length
                     branchesUpdated := branchUpdates.length }, t)

/-- The whole store behind the `ForgeStore` interface. -/
def exec : (op : ForgeOp) → SqlxState → op.Ans × SqlxState
  | .putBlob bytes, t => t.putBlob D bytes
  | .getBlob digest, t => (t.getBlob digest, t)
  | .putCommit commit, t => t.putCommit commit
  | .getCommit repo commitId, t => (t.getCommit repo commitId, t)
  | .setBranch repo branch commitId, t => t.setBranch repo branch commitId
  | .getBranch repo branch, t => (t.getBranch repo branch, t)
  | .casSetBranch repo branch expected commitId, t => t.casSetBranch repo branch expected commitId
  | .existsAll digests, t => (.ok (digests.map fun d => (t.blobs d).isSome), t)
  | .atomicPublish repo blobs commit branchUpdates, t =>
      t.atomicPublish D repo blobs commit branchUpdates
  | .isRepoPrivate repo, t => (.ok ((t.repositories repo).getD true), t)
  | .setRepoPrivate repo isPrivate, t =>
      (.ok (), { t with repositories := t.repositories.insert repo isPrivate })

end SqlxState

/-! ## Rows -/

/-- A commit can be read back from the row that was written for it. -/
theorem CommitRow.toRecord_ofRecord (commit : CommitRecord) :
    (CommitRow.ofRecord commit).toRecord commit.repo commit.commitId = .ok commit := by
  simp [CommitRow.toRecord, CommitRow.ofRecord, Json.parse_render, manifestOfValue?_manifestValue,
    stringsOfValue?_strings]

/-! ## The writes of `atomic_publish` -/

namespace SqlxState

variable {D : Deployment} {t : SqlxState}

theorem putBlobs_eq {blobs : List Bytes} (hsize : ∀ b ∈ blobs, b.length ≤ maxBlobBytes) :
    t.putBlobs D blobs =
      (.ok (), { t with
        blobs := blobs.foldl (fun m b => m.insertNew (D.sha256Hex b) b) t.blobs }) := by
  induction blobs generalizing t with
  | nil =>
      rfl
  | cons b blobs ih =>
      have hb : checkBlobSize b.length = .ok () := by
        simp [checkBlobSize, Nat.not_lt.2 (hsize b (by simp))]
      simp only [putBlobs, putBlob, hb]
      exact ih (fun b' hb' => hsize b' (by simp [hb']))

theorem setBranches_eq (repo : String) (updates : List (String × String)) :
    t.setBranches repo updates =
      (.ok (), { t with
        branches := updates.foldl (fun bs u => bs.insert (repo, u.1) u.2) t.branches }) := by
  induction updates generalizing t with
  | nil =>
      rfl
  | cons u updates ih =>
      exact ih

/-- The tables after a publish. -/
def publishEffects (D : Deployment) (t : SqlxState) (repo : String) (blobs : List Bytes)
    (commit : CommitRecord) (branchUpdates : List (String × String)) : SqlxState :=
  { t with
    blobs := blobs.foldl (fun m b => m.insertNew (D.sha256Hex b) b) t.blobs
    commits := t.commits.insertNew (commit.repo, commit.commitId) (CommitRow.ofRecord commit)
    branches := branchUpdates.foldl (fun bs u => bs.insert (repo, u.1) u.2) t.branches }

/-- A publish whose blobs fit in a field is always accepted. -/
theorem atomicPublish_eq {repo : String} {blobs : List Bytes} {commit : CommitRecord}
    {branchUpdates : List (String × String)} (hsize : ∀ b ∈ blobs, b.length ≤ maxBlobBytes) :
    t.atomicPublish D repo blobs commit branchUpdates =
      (.ok { commitId := commit.commitId
             blobsStored := blobs.length
             branchesUpdated := branchUpdates.length },
        t.publishEffects D repo blobs commit branchUpdates) := by
  simp only [atomicPublish, putBlobs_eq hsize, putCommit, setBranches_eq]
  rfl

end SqlxState

/-! ## Refinement -/

/-- The two stores answer every read alike. -/
structure Agree (s : InMemoryState) (t : SqlxState) : Prop where
  blob : ∀ digest, t.getBlob digest = .ok (s.cas digest)
  commit : ∀ repo commitId, t.getCommit repo commitId = .ok (s.commits (repo, commitId))
  branch : ∀ repo branch, t.getBranch repo branch = .ok (s.branches (repo, branch))

/-- One publish on both stores: both accept it and still answer alike, or both refuse it and neither
has changed. -/
def PublishAgrees (D : Deployment) (s : InMemoryState) (t : SqlxState) (repo : String)
    (blobs : List Bytes) (commit : CommitRecord) (branchUpdates : List (String × String)) : Prop :=
  match s.exec D (.atomicPublish repo blobs commit branchUpdates),
    t.exec D (.atomicPublish repo blobs commit branchUpdates) with
  | (.ok _, s'), (.ok _, t') => Agree s' t'
  | (.error _, s'), (.error _, t') => s' = s ∧ t' = t
  | _, _ => False

section Refinement

variable {D : Deployment} {s : InMemoryState} {t : SqlxState} {repo : String} {blobs : List Bytes}
  {commit : CommitRecord} {branchUpdates : List (String × String)}

/-- Keeping the first blob of a digest or the last makes no difference when what is stored under the
digests of the new blobs are these blobs. -/
theorem Agree.blobs_iff (hsha : Function.Injective D.sha256Hex) (h : Agree s t) :
    (∀ d, (t.publishEffects D repo blobs commit branchUpdates).getBlob d =
        .ok ((s.atomicPublishEffects D repo blobs commit branchUpdates).cas d)) ↔
      ∀ b ∈ blobs, ∀ b', s.cas (D.sha256Hex b) = some b' → b' = b := by
  have hrow : ∀ d, t.blobs d = s.cas d := fun d => Except.ok.inj (h.blob d)
  constructor
  · intro hread b hb b' hb'
    have hd := Except.ok.inj (hread (D.sha256Hex b))
    have hold : t.blobs (D.sha256Hex b) = some b' := by rw [hrow, hb']
    simp only [SqlxState.publishEffects, InMemoryState.atomicPublishEffects] at hd
    rw [Map.foldl_insertNew_of_some hold, Map.foldl_insert_of_mem hsha hb] at hd
    exact Option.some.inj hd
  · intro hsame d
    simp only [SqlxState.getBlob, SqlxState.publishEffects, InMemoryState.atomicPublishEffects]
    -- Among the digests of the upload the two insertions may differ; elsewhere neither writes.
    by_cases hd : d ∈ blobs.map D.sha256Hex
    · rcases List.mem_map.1 hd with ⟨b, hb, rfl⟩
      rw [Map.foldl_insert_of_mem hsha hb]
      cases hold : t.blobs (D.sha256Hex b) with
      | none =>
          rw [Map.foldl_insertNew_of_none hsha hb hold]
      | some b' =>
          rw [Map.foldl_insertNew_of_some hold, hsame b hb b' (by rw [← hrow, hold])]
    · rw [Map.foldl_insertNew_of_notMem hd, Map.foldl_insert_of_notMem hd, hrow]

/-- The same for the commit row: the old one stays, the old record goes. -/
theorem Agree.commits_iff (h : Agree s t) (hrepo : commit.repo = repo) :
    (∀ repo' commitId,
        (t.publishEffects D repo blobs commit branchUpdates).getCommit repo' commitId =
          .ok ((s.atomicPublishEffects D repo blobs commit branchUpdates).commits
            (repo', commitId))) ↔
      ∀ r, s.commits (repo, commit.commitId) = some r → r = commit := by
  subst hrepo
  constructor
  · intro hread r hr
    have hnew := hread commit.repo commit.commitId
    have hold := h.commit commit.repo commit.commitId
    rw [hr] at hold
    simp only [InMemoryState.atomicPublishEffects, Map.insert_self] at hnew
    -- A row was there, since the record can be read; `DO NOTHING` keeps it.
    cases hrow : t.commits (commit.repo, commit.commitId) with
    | none =>
        simp [SqlxState.getCommit, hrow] at hold
    | some row =>
        simp only [SqlxState.getCommit, hrow] at hold
        simp only [SqlxState.getCommit, SqlxState.publishEffects, Map.insertNew, hrow] at hnew
        rw [hold] at hnew
        exact Option.some.inj (Except.ok.inj hnew)
  · intro hsame repo' commitId
    by_cases hk : (repo', commitId) = (commit.repo, commit.commitId)
    · obtain ⟨rfl, rfl⟩ := Prod.mk.inj hk
      have hold := h.commit commit.repo commit.commitId
      simp only [InMemoryState.atomicPublishEffects, Map.insert_self]
      cases hrow : t.commits (commit.repo, commit.commitId) with
      | none =>
          simp [SqlxState.getCommit, SqlxState.publishEffects, Map.insertNew, hrow,
            CommitRow.toRecord_ofRecord, Except.map]
      | some row =>
          simp only [SqlxState.getCommit, hrow] at hold
          simp only [SqlxState.getCommit, SqlxState.publishEffects, Map.insertNew, hrow, hold]
          cases hr : s.commits (commit.repo, commit.commitId) with
          | none =>
              rw [hr] at hold
              cases hdec : row.toRecord commit.repo commit.commitId <;> simp [hdec, Except.map] at hold
          | some r =>
              rw [hsame r hr]
    · have hold := h.commit repo' commitId
      simp only [SqlxState.getCommit] at hold
      simp only [SqlxState.getCommit, SqlxState.publishEffects,
        InMemoryState.atomicPublishEffects, Map.insertNew_apply, if_neg hk, Map.insert_of_ne _ _ hk]
      exact hold

/-- Branch rows are upserted, exactly as the map is. -/
theorem Agree.branches (h : Agree s t) (repo' branch : String) :
    (t.publishEffects D repo blobs commit branchUpdates).getBranch repo' branch =
      .ok ((s.atomicPublishEffects D repo blobs commit branchUpdates).branches (repo', branch)) := by
  have hrows : t.branches = s.branches := by
    apply Map.ext
    intro k
    exact Except.ok.inj (h.branch k.1 k.2)
  simp [SqlxState.getBranch, SqlxState.publishEffects, InMemoryState.atomicPublishEffects, hrows]

/-- The publishes on which the missing gates and `DO NOTHING` do not show: the in-memory gates pass,
and what is stored under the commit's id and under the blobs' digests is what is being published. -/
def PublishFits (D : Deployment) (s : InMemoryState) (repo : String) (blobs : List Bytes)
    (commit : CommitRecord) (branchUpdates : List (String × String)) : Prop :=
  ((∀ e ∈ commit.manifest, e.digest ∈ blobs.map D.sha256Hex ∨ (s.cas e.digest).isSome = true) ∧
    ∀ u ∈ branchUpdates, (s.commits (repo, u.2)).isSome = true ∨ u.2 = commit.commitId) ∧
  (∀ r, s.commits (repo, commit.commitId) = some r → r = commit) ∧
  ∀ b ∈ blobs, ∀ b', s.cas (D.sha256Hex b) = some b' → b' = b

theorem agree_effects_iff (hsha : Function.Injective D.sha256Hex) (h : Agree s t)
    (hrepo : commit.repo = repo) (branchUpdates : List (String × String)) :
    Agree (s.atomicPublishEffects D repo blobs commit branchUpdates)
        (t.publishEffects D repo blobs commit branchUpdates) ↔
      (∀ r, s.commits (repo, commit.commitId) = some r → r = commit) ∧
        ∀ b ∈ blobs, ∀ b', s.cas (D.sha256Hex b) = some b' → b' = b := by
  constructor
  · intro hagree
    exact ⟨(h.commits_iff hrepo).1 hagree.commit, (h.blobs_iff hsha).1 hagree.blob⟩
  · rintro ⟨hcommit, hblobs⟩
    exact ⟨(h.blobs_iff hsha).2 hblobs, (h.commits_iff hrepo).2 hcommit, h.branches⟩

end Refinement

/-- Two stores that answer alike treat a publish alike if and only if the in-memory gates let it
pass and nothing else is stored under the commit's id and the blobs' digests. -/
theorem atomic_publish_refines_iff (D : Deployment) (hsha : Function.Injective D.sha256Hex)
    (s : InMemoryState) (t : SqlxState) (hagree : Agree s t) (repo : String) (blobs : List Bytes)
    (hsize : ∀ b ∈ blobs, b.length ≤ maxBlobBytes) (commit : CommitRecord)
    (hrepo : commit.repo = repo) (branchUpdates : List (String × String)) :
    PublishAgrees D s t repo blobs commit branchUpdates ↔
      PublishFits D s repo blobs commit branchUpdates := by
  unfold PublishAgrees PublishFits
  rw [← InMemoryState.atomicPublishGates_ok, ← agree_effects_iff hsha hagree hrepo branchUpdates]
  simp only [SqlxState.exec, SqlxState.atomicPublish_eq hsize, InMemoryState.exec]
  -- The Postgres store accepts in both cases, so a refusal by the gates is a disagreement.
  rcases s.atomicPublishGates_cases D repo blobs commit branchUpdates with hok | ⟨e, he⟩
  · simp [hok]
  · simp [he]

theorem agree_empty : Agree .empty .empty where
  blob := fun _ => rfl
  commit := fun _ _ => rfl
  branch := fun _ _ => rfl

/-- The digest of the blob `hello` below. -/
def helloDigests : List (Bytes × String) :=
  [(utf8 "hello\n", "5891b5b522d5df086d0ff0b110fbd9d21bb4fc7163af34d08286a2e846f6be03")]

/-- A commit of one file. -/
def helloCommit (digest : String) : CommitRecord :=
  { repo := "demo", commitId := "c1", treeDigest := "t1"
    manifest := [{ path := "hello", digest := digest, executable := false, size := 6 }]
    parents := [], message := "m", author := "a" }

/-- Published together with its file to empty stores, both accept it. -/
theorem atomic_publish_agrees_on_hello :
    PublishAgrees (.ofTable helloDigests) .empty .empty "demo" [utf8 "hello\n"]
      (helloCommit "5891b5b522d5df086d0ff0b110fbd9d21bb4fc7163af34d08286a2e846f6be03")
      [("main", "c1")] := by
  have hsha : Function.Injective (Deployment.ofTable helloDigests).sha256Hex :=
    tableDigest_injective (by decide +kernel) (by decide +kernel)
  have hsize : ∀ b ∈ [utf8 "hello\n"], b.length ≤ maxBlobBytes := by decide +kernel
  refine (atomic_publish_refines_iff _ hsha _ _ agree_empty "demo" _ hsize (helloCommit _) rfl _).2
    ⟨⟨?_, ?_⟩, ?_, ?_⟩
  · decide +kernel
  · intro u hu
    exact Or.inr (congrArg Prod.snd (List.mem_singleton.1 hu))
  · intro r hr
    cases hr
  · intro b _ b' hb'
    cases hb'

/-- Published without it, the in-memory store refuses and the Postgres store accepts, whatever the
digest function. -/
theorem atomic_publish_without_blob :
    Agree .empty .empty ∧
      ¬ ∃ D : Deployment, PublishAgrees D .empty .empty "demo" [] (helloCommit "deadbeef") [] := by
  refine ⟨agree_empty, ?_⟩
  rintro ⟨D, h⟩
  exact h

end Forge
end Aivcs
