import Aivcs.Forge.Integrity
import Aivcs.Forge.SourceRoundTrip

/-!
# Forge.Servable — what `create_commit` checks, and what `get_repo_source` asks for

`create_commit` looks up the digests its parents do not have.  In a store whose commits find their
blobs that is as good as looking up all of them (`create_commit_iff_blobs_present`), and it stays so:
blobs are never removed.

`tar_entry_chunk` asks for more: the blob must have the size the entry states.  Nothing on the way in
compares the two, so a commit that was accepted can be served exactly when its author stated the
sizes right (`servable_iff_sizes`).
-/

namespace Aivcs
namespace Forge

open Aivcs.Lib

variable {D : Deployment} {s : InMemoryState}

/-! ## Incremental validation -/

/-- In a store whose commits find their blobs, a commit is stored, under the id derived from it, if and
only if every digest of its manifest is in CAS; otherwise the answer names an entry whose digest is
not, and the store is as before. -/
theorem create_commit_iff_blobs_present (D : Deployment) (s : InMemoryState) (hs : s.BlobsPresent)
    (req : CreateCommitRequest) :
    let out := (createCommit D req).run (InMemoryState.exec D) s
    let stored : Response × InMemoryState :=
      ({ status := .created
         body := .createCommit (req.record D).commitId (req.record D).treeDigest },
        { s with commits := s.commits.insert (req.repo, (req.record D).commitId) (req.record D) })
    (out = stored ↔ ∀ e ∈ req.manifest, (s.cas e.digest).isSome = true) ∧
      (out ≠ stored → ∃ e ∈ req.manifest, s.cas e.digest = none ∧
        out = (err .unprocessableEntity ("blob not in CAS for " ++ e.path ++ ": " ++ e.digest), s)) := by
  intro out stored
  by_cases hval : s.Validated req
  · have hout : out = stored := run_createCommit_of_validated hval
    exact ⟨iff_of_true hout (hs.of_validated hval), fun hne => absurd hout hne⟩
  · rcases run_createCommit_of_not_validated (D := D) hval with ⟨e, he, hmissing, hrun⟩
    have hne : out ≠ stored := by
      intro heq
      have hstatus := congrArg (fun x => x.1.status) (hrun.symm.trans heq)
      cases hstatus
    refine ⟨iff_of_false hne ?_, fun _ => ⟨e, he, hmissing, hrun⟩⟩
    intro hall
    simpa [hmissing] using hall e he

/-- A commit of one file, of the stated size. -/
def oneFileRequest (size : UInt64) : CreateCommitRequest :=
  { repo := "demo"
    manifest :=
      [{ path := "a.txt", executable := false, size := size
         digest := "2d711642b726b04401627ca9fbac32f5c8530fb1903cc4db02258717921a4881" }]
    parents := ["unknown"], message := "m", author := "a" }

/-- A commit on top of one that is stored and one that is not, of the same file and others. -/
def nextRequest (others : List ManifestEntry) : CreateCommitRequest :=
  { oneFileRequest 1 with
    manifest := (oneFileRequest 1).manifest ++ others, parents := ["first", "unknown"] }

/-- Not uploaded. -/
def otherFile : ManifestEntry where
  path := "b.txt"
  digest := "3e23e8160039594a33894f6564e1b1348bbd7a0088d42c4acb73eeaed59c009d"
  executable := false
  size := 1

/-- The file is uploaded, and committed once. -/
def oneCommitStore : InMemoryState :=
  let manifest := (oneFileRequest 1).manifest
  { InMemoryState.empty with
    cas := Map.insert ∅ "2d711642b726b04401627ca9fbac32f5c8530fb1903cc4db02258717921a4881" (utf8 "x")
    commits := Map.insert ∅ ("demo", "first")
      { repo := "demo", commitId := "first", treeDigest := "tree", manifest := manifest, parents := []
        message := "m", author := "a" } }

theorem blobsPresent_oneCommitStore : oneCommitStore.BlobsPresent := by
  intro k r hr e he
  obtain ⟨-, rfl⟩ | ⟨-, hr⟩ := Map.insert_eq_some hr
  · obtain rfl := List.mem_singleton.1 he
    decide +kernel
  · cases hr

/-- The digest the parent has is not looked up, and the commit is stored; with a file that was not uploaded it
is refused. -/
theorem create_commit_on_parent :
    oneCommitStore.BlobsPresent ∧
      ((digestsRequiringValidation "demo" (nextRequest []).parents (nextRequest []).manifest).run
        (InMemoryState.exec (.ofTable [])) oneCommitStore).1 = .ok [] ∧
      ((createCommit (.ofTable []) (nextRequest [])).run (InMemoryState.exec (.ofTable [])) oneCommitStore).1.status =
        .created ∧
      (createCommit (.ofTable []) (nextRequest [otherFile])).run (InMemoryState.exec (.ofTable [])) oneCommitStore =
        (err .unprocessableEntity ("blob not in CAS for b.txt: " ++ otherFile.digest), oneCommitStore) := by
  have hs := blobsPresent_oneCommitStore
  refine ⟨hs, by decide +kernel, ?_, ?_⟩
  · have hspec := create_commit_iff_blobs_present (.ofTable []) oneCommitStore hs (nextRequest [])
    rw [hspec.1.2]
    intro e he
    obtain rfl := List.mem_singleton.1 he
    decide +kernel
  · have hspec := create_commit_iff_blobs_present (.ofTable []) oneCommitStore hs (nextRequest [otherFile])
    obtain ⟨e, he, hmissing, hout⟩ := hspec.2 fun hstored => by
      have hpresent := hspec.1.1 hstored otherFile (by simp [nextRequest])
      revert hpresent
      decide +kernel
    rw [hout]
    -- the entry that is named is not the one that is there
    rcases List.mem_pair.1 he with rfl | rfl
    · refine absurd hmissing ?_
      decide +kernel
    · rfl

/-! ## Serving what was accepted -/

/-- The requests that upload blobs, make repositories and commits, and move branches. -/
def Request.Basic : Request → Prop
  | .putBlob _ | .createRepo _ | .createCommit _ | .updateBranch _ _ _
  | .updateBranchDouble _ _ _ _ => True
  | _ => False

theorem Request.Basic.archiveStored {req : Request} (h : req.Basic) : s.ArchiveStored req := by
  cases req with
  | postCommitRepo owner repo payload =>
      cases h
  | _ =>
      trivial

/-- Blobs are never removed. -/
theorem isSome_cas_step {d : String} (req : Request) (h : (s.cas d).isSome = true) :
    ((step D s req).cas d).isSome = true := by
  have hw := writes_step D s req
  generalize step D s req = s' at hw ⊢
  cases hw with
  | blob bytes =>
      exact (Map.isSome_insert _ _ _ _).2 (Or.inr h)
  | publish req hacc =>
      exact (InMemoryState.isSome_foldl_insert_blobs D _ _ d).2 (Or.inr h)
  | _ =>
      exact h

theorem isSome_cas_after {d : String} (reqs : List Request) (h : (s.cas d).isSome = true) :
    ((after (step D) s reqs).cas d).isSome = true :=
  (always_of_step (I := fun s : InMemoryState => (s.cas d).isSome = true) (fun _ req h => isSome_cas_step req h) h
    reqs).final

/-- A chunk is produced exactly when the blob is there, as long as stated, and hashes to the digest. -/
theorem run_tarEntryChunk_ok_iff {e : ManifestEntry}
    (hsplit : (ustarSplit (utf8 e.path)).isSome = true) :
    (∃ chunk, ((tarEntryChunk D e).run (InMemoryState.exec D) s).1 = .ok chunk) ↔
      BlobIntact D s e := by
  rcases Option.isSome_iff_exists.1 hsplit with ⟨⟨pre, name⟩, hsplit⟩
  constructor
  · rintro ⟨chunk, hchunk⟩
    simp only [tarEntryChunk, ForgeStore.getBlob, Proc.bind_eq, Proc.bind_perform, Proc.run_call,
      InMemoryState.exec] at hchunk
    cases hblob : s.cas e.digest with
    | none =>
        simp [hblob] at hchunk
    | some bytes =>
        simp only [hblob] at hchunk
        split_ifs at hchunk with hlen hsha
        · cases hchunk
        · cases hchunk
        · exact ⟨bytes, hblob, not_not.1 hlen, not_not.1 hsha⟩
  · rintro ⟨bytes, hblob, hlen, hsha⟩
    exact ⟨_, congrArg Prod.fst (run_tarEntryChunk hblob hlen hsha hsplit)⟩

theorem run_sourceBody_ok_iff {entries : List ManifestEntry} :
    (∃ archive, ((sourceBody D entries).run (InMemoryState.exec D) s).1 = .ok archive) ↔
      ∀ e ∈ entries, ∃ chunk, ((tarEntryChunk D e).run (InMemoryState.exec D) s).1 = .ok chunk := by
  -- A chunk only reads the store, so every entry meets the same one.
  have hread : ∀ e : ManifestEntry, ((tarEntryChunk D e).run (InMemoryState.exec D) s).2 = s := by
    intro e
    simp only [tarEntryChunk, ForgeStore.getBlob, Proc.bind_eq, Proc.bind_perform, Proc.run_call,
      InMemoryState.exec]
    cases s.cas e.digest with
    | none =>
        rfl
    | some bytes =>
        dsimp only
        split_ifs
        · rfl
        · rfl
        · cases ustarSplit (utf8 e.path) <;> rfl
  induction entries with
  | nil =>
      exact iff_of_true ⟨_, rfl⟩ (by simp)
  | cons e entries ih =>
      refine Iff.trans ?_ ((and_congr_right fun _ => ih).trans List.forall_mem_cons.symm)
      simp only [sourceBody, Proc.bind_eq, Proc.run_bind, hread]
      cases hchunk : ((tarEntryChunk D e).run (InMemoryState.exec D) s).1 with
      | error err =>
          simp
      | ok chunk =>
          simp only [Proc.run_bind]
          cases hrest : ((sourceBody D entries).run (InMemoryState.exec D) s).1 with
          | error err =>
              simp
          | ok rest =>
              simp

/-- The body of the archive streams to its end. -/
def Streams (D : Deployment) (s : InMemoryState) (entries : List ManifestEntry) : Prop :=
  (∃ archive, ((sourceBody D entries).run (InMemoryState.exec D) s).1 = .ok archive) ∧
    ∀ e ∈ entries, ∃ chunk, ((tarEntryChunk D e).run (InMemoryState.exec D) s).1 = .ok chunk

/-- When a commit was accepted its blobs were there, and they have not gone since. -/
theorem isSome_cas_of_accepted {reqs pre : List Request} (hbasic : ∀ r ∈ reqs, r.Basic)
    {req : CreateCommitRequest} (hpre : pre ++ [.createCommit req] <+: reqs)
    (hcreated : (serve D (after (step D) .empty pre) (.createCommit req)).1.status = .created) :
    ∀ e ∈ req.manifest, ((after (step D) .empty reqs).cas e.digest).isSome = true := by
  intro e he
  have harchives : EachStep (step D) InMemoryState.ArchiveStored .empty reqs := by
    intro l r hl
    exact (hbasic r (hl.subset (by simp))).archiveStored
  have hblobs : (after (step D) .empty pre).BlobsPresent :=
    always_of_eachStep (fun _ _ h hreq => h.step hreq) InMemoryState.blobsPresent_empty harchives
      pre ((List.prefix_append _ _).trans hpre)
  have hval : (after (step D) .empty pre).Validated req := by
    by_contra hno
    rcases run_createCommit_of_not_validated (D := D) hno with ⟨_, _, _, hrun⟩
    rw [show serve D (after (step D) .empty pre) (.createCommit req) = _ from hrun] at hcreated
    cases hcreated
  rcases (List.prefix_append _ _).trans hpre with ⟨rest, rfl⟩
  rw [after_append]
  exact isSome_cas_after rest (hblobs.of_validated hval e he)

/-- A commit that was accepted in a run and passes the preflight is served to the end, wherever the run
has got to, if and only if each of its entries states the length of the blob it names. -/
theorem servable_iff_sizes (D : Deployment) (reqs pre : List Request)
    (hbasic : ∀ r ∈ reqs, r.Basic) (req : CreateCommitRequest)
    (hpre : pre ++ [.createCommit req] <+: reqs)
    (hcreated : (serve D (after (step D) .empty pre) (.createCommit req)).1.status = .created)
    (entries : List ManifestEntry) (hflight : preflightSource D (req.record D) = .ok entries) :
    Streams D (after (step D) .empty reqs) entries ↔
      ∀ e ∈ req.manifest, ∀ bytes, (after (step D) .empty reqs).cas e.digest = some bytes →
        bytes.length = e.size.toNat := by
  rcases preflightSource_ok hflight with ⟨rfl, hok⟩
  have hmem : ∀ e, e ∈ sortByPath (req.record D).manifest ↔ e ∈ req.manifest := fun e =>
    (sortByPath_perm _).mem_iff
  have hpresent := isSome_cas_of_accepted hbasic hpre hcreated
  have haddressed : (after (step D) .empty reqs).ContentAddressed D :=
    (cas_content_addressed D reqs).final
  -- The blobs were there when the commit was accepted and still are, under their own digests; only the size is left.
  rw [Streams, run_sourceBody_ok_iff, and_self]
  constructor
  · intro h e he bytes hbytes
    rcases (run_tarEntryChunk_ok_iff (hok.splits e ((hmem e).2 he))).1 (h e ((hmem e).2 he))
      with ⟨bytes', hbytes', hlen, _⟩
    rw [hbytes] at hbytes'
    exact (Option.some.inj hbytes').symm ▸ hlen
  · intro h e he
    rw [run_tarEntryChunk_ok_iff (hok.splits e he)]
    rcases Option.isSome_iff_exists.1 (hpresent e ((hmem e).1 he)) with ⟨bytes, hbytes⟩
    exact ⟨bytes, hbytes, h e ((hmem e).1 he) bytes hbytes, haddressed _ _ hbytes⟩

/-- The SHA-256 digest of the file. -/
def oneFileDigests : List (Bytes × String) :=
  [(utf8 "x", "2d711642b726b04401627ca9fbac32f5c8530fb1903cc4db02258717921a4881")]

/-- The file is uploaded and committed with the stated size. -/
def oneFileRun (size : UInt64) : List Request :=
  [.putBlob (utf8 "x"), .createCommit (oneFileRequest size)]

theorem oneFileRun_basic (size : UInt64) : ∀ r ∈ oneFileRun size, r.Basic := by
  intro r hr
  rcases List.mem_cons.1 hr with rfl | hr
  · trivial
  · obtain rfl := List.mem_singleton.1 hr
    trivial

/-- Committed with its size, the file is served. -/
theorem oneFile_served :
    (serve (.ofTable oneFileDigests) (after (step (.ofTable oneFileDigests)) .empty
      [.putBlob (utf8 "x")]) (.createCommit (oneFileRequest 1))).1.status = .created ∧
    Streams (.ofTable oneFileDigests)
      (after (step (.ofTable oneFileDigests)) .empty (oneFileRun 1)) (oneFileRequest 1).manifest := by
  have hcreated : (serve (.ofTable oneFileDigests) (after (step (.ofTable oneFileDigests)) .empty
      [.putBlob (utf8 "x")]) (.createCommit (oneFileRequest 1))).1.status = .created := by
    decide +kernel
  refine ⟨hcreated, ?_⟩
  refine (servable_iff_sizes (.ofTable oneFileDigests) (oneFileRun 1) [.putBlob (utf8 "x")]
    (oneFileRun_basic 1) (oneFileRequest 1) List.prefix_rfl hcreated _ (by decide +kernel)).2 ?_
  intro e he bytes hbytes
  obtain rfl := List.mem_singleton.1 he
  have hstored : (after (step (.ofTable oneFileDigests)) .empty (oneFileRun 1)).cas
      "2d711642b726b04401627ca9fbac32f5c8530fb1903cc4db02258717921a4881" = some (utf8 "x") := by
    decide +kernel
  obtain rfl := Option.some.inj (hstored.symm.trans hbytes)
  decide +kernel

/-- Committed with a size that is not its own, it is accepted all the same and the stream aborts. -/
theorem oneFile_misstated :
    ¬ ∀ (D : Deployment) (reqs pre : List Request) (_ : ∀ r ∈ reqs, r.Basic)
        (req : CreateCommitRequest) (_ : pre ++ [.createCommit req] <+: reqs)
        (_ : (serve D (after (step D) .empty pre) (.createCommit req)).1.status = .created)
        (entries : List ManifestEntry) (_ : preflightSource D (req.record D) = .ok entries),
      ∀ e ∈ entries, ∃ chunk,
        ((tarEntryChunk D e).run (InMemoryState.exec D) (after (step D) .empty reqs)).1 =
          .ok chunk := by
  intro h
  rcases h (.ofTable oneFileDigests) (oneFileRun 2) [.putBlob (utf8 "x")] (oneFileRun_basic 2)
    (oneFileRequest 2) List.prefix_rfl (by decide +kernel) (oneFileRequest 2).manifest
    (by decide +kernel) _ List.mem_cons_self with ⟨chunk, hchunk⟩
  -- The chunk does not matter: the outcome is an error.
  have hok : ((tarEntryChunk (.ofTable oneFileDigests)
      ⟨"a.txt", "2d711642b726b04401627ca9fbac32f5c8530fb1903cc4db02258717921a4881", false, 2⟩).run
      (InMemoryState.exec (.ofTable oneFileDigests))
      (after (step (.ofTable oneFileDigests)) .empty (oneFileRun 2))).1.isOk = true :=
    congrArg Except.isOk hchunk
  revert hok
  decide +kernel

end Forge
end Aivcs
