import Aivcs.Forge.Router

/-!
# Forge.Integrity — references between blobs, commits and branches

Two invariants of the in-memory store over whole runs of requests.

* `HeadsResolve`: a branch head is a stored commit of the branch's own repository.  Every route
  keeps it.
* `BlobsPresent`: a manifest entry of a stored commit names a stored blob.  This is what
  `digests_requiring_validation` relies on when it does not look up digests a parent already has.
  `post_commit_repo` stores a commit without looking its one digest up, so the invariant holds along
  a run exactly when each archive it is told about had been uploaded before.
-/

namespace Aivcs
namespace Forge

open Aivcs.Lib

variable {D : Deployment} {s s' : InMemoryState}

/-! ## Branch heads -/

/-- Every branch head is a stored commit of its repository. -/
def InMemoryState.HeadsResolve (s : InMemoryState) : Prop :=
  ∀ repo branch c, s.branches (repo, branch) = some c → (s.commits (repo, c)).isSome = true

theorem InMemoryState.headsResolve_empty : InMemoryState.empty.HeadsResolve := by
  intro repo branch c h
  cases h

/-- Commits may be added and heads moved, as long as each new head is a stored commit. -/
theorem InMemoryState.HeadsResolve.of_heads (h : s.HeadsResolve)
    (hcommits : ∀ k, (s.commits k).isSome = true → (s'.commits k).isSome = true)
    (hheads : ∀ repo branch c, s'.branches (repo, branch) = some c →
      s.branches (repo, branch) = some c ∨ (s'.commits (repo, c)).isSome = true) :
    s'.HeadsResolve := by
  intro repo branch c hc
  rcases hheads repo branch c hc with hold | hnew
  · exact hcommits _ (h repo branch c hold)
  · exact hnew

/-- Storing a record never removes a commit. -/
theorem isSome_commits_insert {commits : Map (String × String) CommitRecord}
    {k₀ : String × String} {r : CommitRecord} (k : String × String)
    (h : (commits k).isSome = true) : (commits.insert k₀ r k).isSome = true :=
  (Map.isSome_insert _ _ _ _).2 (Or.inr h)

theorem InMemoryState.HeadsResolve.step (h : s.HeadsResolve) (req : Request) :
    (Forge.step D s req).HeadsResolve := by
  have hw := writes_step D s req
  generalize Forge.step D s req = s' at hw ⊢
  cases hw with
  | unchanged =>
      exact h
  | visibility =>
      exact h
  | blob =>
      exact h
  | commit =>
      exact h.of_heads isSome_commits_insert (fun _ _ _ hc => Or.inl hc)
  | archive =>
      exact h.of_heads isSome_commits_insert (fun _ _ _ hc => Or.inl hc)
  | initRepo req repo isPrivate habsent =>
      refine h.of_heads isSome_commits_insert ?_
      intro repo' branch c hc
      rcases Map.insert_eq_some hc with ⟨hk, rfl⟩ | ⟨-, hold⟩
      · -- The new head is the root commit, stored in the step before.
        obtain ⟨rfl, -⟩ := Prod.mk.inj hk
        exact Or.inr (by simp [InMemoryState.initRepo])
      · exact Or.inl hold
  | publish req hacc =>
      rcases hacc with ⟨hrepo, hgates⟩
      rcases (InMemoryState.atomicPublishGates_ok D).1 hgates with ⟨-, htargets⟩
      refine h.of_heads isSome_commits_insert ?_
      intro repo branch c hc
      rcases InMemoryState.foldl_insert_branches _ _ _ hc with hold | ⟨rfl, u, hu, rfl⟩
      · exact Or.inl hold
      · -- The gate let the target through: it was stored, or it is the commit just written.
        rcases htargets u hu with hstored | hself
        · exact Or.inr (isSome_commits_insert _ hstored)
        · refine Or.inr ?_
          show ((s.commits.insert (req.commit.repo, req.commit.commitId) req.commit)
            (req.repo, u.2)).isSome = true
          rw [hself, ← hrepo, Map.insert_self]
          rfl
  | branch req repo branch commitId hstored =>
      refine h.of_heads (fun _ hk => hk) ?_
      intro repo' branch' c hc
      rcases Map.insert_eq_some hc with ⟨hk, rfl⟩ | ⟨-, hold⟩
      · obtain ⟨rfl, -⟩ := Prod.mk.inj hk
        exact Or.inr hstored
      · exact Or.inl hold

/-- In every state reached by requests, every branch head resolves inside its own repository. -/
theorem branch_heads_resolve (D : Deployment) (reqs : List Request) :
    Always (step D) InMemoryState.HeadsResolve .empty reqs :=
  always_of_step (fun _ req h => h.step req) InMemoryState.headsResolve_empty reqs

/-! ## Blobs -/

/-- Every manifest entry of every stored commit names a stored blob. -/
def InMemoryState.BlobsPresent (s : InMemoryState) : Prop :=
  ∀ k r, s.commits k = some r → ∀ e ∈ r.manifest, (s.cas e.digest).isSome = true

/-- The archive a `post_commit_repo` request names has been uploaded. -/
def InMemoryState.ArchiveStored (s : InMemoryState) : Request → Prop
  | .postCommitRepo _ _ payload => (s.cas payload.blobHash).isSome = true
  | _ => True

theorem InMemoryState.blobsPresent_empty : InMemoryState.empty.BlobsPresent := by
  intro k r h
  cases h

/-- Blobs may be added and commits stored, as long as each new commit finds its blobs. -/
theorem InMemoryState.BlobsPresent.of_commits (h : s.BlobsPresent)
    (hcas : ∀ d, (s.cas d).isSome = true → (s'.cas d).isSome = true)
    (hcommits : ∀ k r, s'.commits k = some r →
      s.commits k = some r ∨ ∀ e ∈ r.manifest, (s'.cas e.digest).isSome = true) :
    s'.BlobsPresent := by
  intro k r hr e he
  rcases hcommits k r hr with hold | hnew
  · exact hcas _ (h k r hold e he)
  · exact hnew e he

/-- The special case of one new record over the same blobs. -/
theorem InMemoryState.BlobsPresent.insert_commit (h : s.BlobsPresent) {k : String × String}
    {r : CommitRecord} (hr : ∀ e ∈ r.manifest, (s.cas e.digest).isSome = true) :
    { s with commits := s.commits.insert k r }.BlobsPresent := by
  refine h.of_commits (fun _ hd => hd) ?_
  intro k' r' hr'
  rcases Map.insert_eq_some hr' with ⟨-, rfl⟩ | ⟨-, hold⟩
  · exact Or.inr hr
  · exact Or.inl hold

/-- While the invariant holds, what a stored parent confers is stored: the incremental check of
`create_commit` is as good as a full one. -/
theorem InMemoryState.BlobsPresent.of_validated (h : s.BlobsPresent) {req : CreateCommitRequest}
    (hval : s.Validated req) : ∀ e ∈ req.manifest, (s.cas e.digest).isSome = true := by
  intro e he
  -- Inherited: the parent is stored, so by the invariant its blobs are.
  rcases hval e he with hinh | hstored
  · rcases List.mem_flatMap.1 hinh with ⟨p, -, hp⟩
    cases hparent : s.commits (req.repo, p) with
    | none =>
        simp [hparent] at hp
    | some parent =>
        rw [hparent] at hp
        rcases List.mem_map.1 hp with ⟨e', he', hd⟩
        rw [← hd]
        exact h _ _ hparent e' he'
  · exact hstored

theorem InMemoryState.BlobsPresent.step (h : s.BlobsPresent) {req : Request}
    (hreq : s.ArchiveStored req) : (Forge.step D s req).BlobsPresent := by
  have hw := writes_step D s req
  generalize Forge.step D s req = s' at hw ⊢
  cases hw with
  | unchanged =>
      exact h
  | visibility =>
      exact h
  | branch =>
      exact h
  | blob bytes =>
      exact h.of_commits (fun d hd => (Map.isSome_insert _ _ _ _).2 (Or.inr hd))
        (fun _ _ hr => Or.inl hr)
  | initRepo req repo isPrivate habsent =>
      exact h.insert_commit (r := rootCommit D repo) (by simp [rootCommit])
  | commit req hval =>
      exact h.insert_commit (h.of_validated hval)
  | archive owner repo payload commit hcommit =>
      subst hcommit
      refine h.insert_commit ?_
      -- The one entry of the made-up manifest names the archive.
      intro e he
      rw [List.mem_singleton.1 he]
      exact hreq
  | publish req hacc =>
      rcases (InMemoryState.atomicPublishGates_ok D).1 hacc.2 with ⟨hman, -⟩
      -- Uploaded or stored before, it is stored afterwards.
      have hblobs : ∀ d, d ∈ req.blobs.map D.sha256Hex ∨ (s.cas d).isSome = true →
          ((s.atomicPublishEffects D req.repo req.blobs req.commit req.branchUpdates).cas
            d).isSome = true :=
        fun d hd => (InMemoryState.isSome_foldl_insert_blobs D _ _ d).2 hd
      refine h.of_commits (fun d hd => hblobs d (Or.inr hd)) ?_
      intro k r hr
      rcases Map.insert_eq_some hr with ⟨-, rfl⟩ | ⟨-, hold⟩
      · exact Or.inr (fun e he => hblobs _ (hman e he))
      · exact Or.inl hold

/-- A commit of an archive that was never uploaded breaks the invariant at once. -/
theorem InMemoryState.archiveStored_of_blobsPresent {req : Request}
    (h : (Forge.step D s req).BlobsPresent) : s.ArchiveStored req := by
  cases req with
  | postCommitRepo owner repo payload =>
      rw [step_postCommitRepo] at h
      exact h _ _ (Map.insert_self _ _ _) _ (List.mem_singleton.2 rfl)
  | _ =>
      trivial

/-- Every stored manifest finds its blobs all along a run if and only if every archive committed
through `post_commit_repo` had been uploaded by then. -/
theorem blobs_present_iff_archives_stored (D : Deployment) (reqs : List Request) :
    Always (step D) InMemoryState.BlobsPresent .empty reqs ↔
      EachStep (step D) InMemoryState.ArchiveStored .empty reqs :=
  always_iff_eachStep
    (fun _ _ _ h => ⟨InMemoryState.archiveStored_of_blobsPresent, fun hreq => h.step hreq⟩)
    InMemoryState.blobsPresent_empty

/-- Whatever the digest function, one `post_commit_repo` on an empty forge stores a commit whose
blob is nowhere. -/
theorem archive_commit_without_blob :
    ¬ ∃ D : Deployment, Always (step D) InMemoryState.BlobsPresent .empty
      [.postCommitRepo "acme" "demo" { message := "m", blobHash := "deadbeef" }] := by
  rintro ⟨D, h⟩
  have hstored := InMemoryState.archiveStored_of_blobsPresent h.final
  cases hstored

/-! ## Content addressing -/

/-- Every blob is stored under its own digest. -/
def InMemoryState.ContentAddressed (D : Deployment) (s : InMemoryState) : Prop :=
  ∀ d b, s.cas d = some b → D.sha256Hex b = d

theorem contentAddressed_insert {cas : Map String Bytes}
    (h : ∀ d b, cas d = some b → D.sha256Hex b = d) (bytes : Bytes) :
    ∀ d b, cas.insert (D.sha256Hex bytes) bytes d = some b → D.sha256Hex b = d := by
  intro d b hb
  rcases Map.insert_eq_some hb with ⟨rfl, rfl⟩ | ⟨-, hold⟩
  · rfl
  · exact h d b hold

theorem contentAddressed_foldl (blobs : List Bytes) {cas : Map String Bytes}
    (h : ∀ d b, cas d = some b → D.sha256Hex b = d) :
    ∀ d b, (blobs.foldl (fun cas b => cas.insert (D.sha256Hex b) b) cas) d = some b →
      D.sha256Hex b = d := by
  induction blobs generalizing cas with
  | nil =>
      exact h
  | cons bytes blobs ih =>
      exact ih (contentAddressed_insert h bytes)

theorem InMemoryState.ContentAddressed.step (h : s.ContentAddressed D) (req : Request) :
    (Forge.step D s req).ContentAddressed D := by
  have hw := writes_step D s req
  generalize Forge.step D s req = s' at hw ⊢
  cases hw with
  | blob bytes =>
      exact contentAddressed_insert h bytes
  | publish req hacc =>
      exact contentAddressed_foldl req.blobs h
  | _ =>
      exact h

/-- In every state reached by requests, every blob is stored under its own digest. -/
theorem cas_content_addressed (D : Deployment) (reqs : List Request) :
    Always (step D) (InMemoryState.ContentAddressed D) .empty reqs := by
  refine always_of_step (fun _ req h => h.step req) ?_ reqs
  intro d b h
  cases h

end Forge
end Aivcs
