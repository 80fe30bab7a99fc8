import Aivcs.Lib.Run
import Aivcs.Forge.Handlers

/-!
# Forge.Router — the routes of `router_with` and what each request does to the store

`Request` has one constructor per route (the two spellings of the create route are one request, the
two-segment aliases keep their own constructors).  `serve` runs a request to its end on the
in-memory store; `step` keeps the store only and is what runs of requests are made of.

The second half states, handler by handler, the store after the request.  The invariant
proofs work from these equations and never open a handler again.
-/

namespace Aivcs
namespace Forge

open Aivcs.Lib

/-! ## Routes -/

inductive Request
  | putBlob (bytes : Bytes)
  | getBlob (digest : String)
  | createCommit (req : CreateCommitRequest)
  | publishAtomic (req : AtomicPublishRequest)
  | getCommit (repo commitId : String)
  | getCommitManifest (repo commitId : String)
  | createRepo (req : CreateRepoRequest)
  | postCommitRepo (owner repo : String) (payload : CommitPayload)
  | getCommitsRepo (owner repo : String)
  | getBranch (repo branch : String)
  | updateBranch (repo branch : String) (req : UpdateBranchRequest)
  | getBranchDouble (owner repo branch : String)
  | updateBranchDouble (owner repo branch : String) (req : UpdateBranchRequest)
  | getRepo (repo : String)
  | getRepoDouble (owner repo : String)
  | getRepoSource (repo : String) (ref : Option String)
  | getRepoSourceDouble (owner repo : String) (ref : Option String)

variable (D : Deployment)

/-- `router_with`: the handler a request is routed to. -/
def handle : Request → ForgeProc Response
  | .putBlob bytes => putBlob bytes
  | .getBlob digest => getBlob digest
  | .createCommit req => createCommit D req
  | .publishAtomic req => publishAtomic req
  | .getCommit repo commitId => getCommit repo commitId
  | .getCommitManifest repo commitId => getCommitManifest repo commitId
  | .createRepo req => createRepo D req
  | .postCommitRepo owner repo payload => postCommitRepo D owner repo payload
  | .getCommitsRepo _ _ => return { status := .ok, body := .commits }
  | .getBranch repo branch => getBranch repo branch
  | .updateBranch repo branch req => updateBranch D repo branch req
  | .getBranchDouble owner repo branch => getBranch (owner ++ "/" ++ repo) branch
  | .updateBranchDouble owner repo branch req => updateBranch D (owner ++ "/" ++ repo) branch req
  | .getRepo repo => getRepo repo
  | .getRepoDouble owner repo => getRepo (owner ++ "/" ++ repo)
  | .getRepoSource repo ref => getRepoSource D repo ref
  | .getRepoSourceDouble owner repo ref => getRepoSource D (owner ++ "/" ++ repo) ref

/-- Answer one request on the in-memory store. -/
def serve (s : InMemoryState) (req : Request) : Response × InMemoryState :=
  (handle D req).run (InMemoryState.exec D) s

/-- The store after one request. -/
def step (s : InMemoryState) (req : Request) : InMemoryState :=
  (serve D s req).2

/-! ## Reads -/

variable {D} {s : InMemoryState}

theorem run_getBranch (repo branch : String) :
    ((getBranch repo branch).run (InMemoryState.exec D) s).2 = s := by
  cases h : s.branches (repo, branch) <;>
    simp [getBranch, ForgeStore.getBranch, InMemoryState.exec, h]

theorem run_getRepo (repo : String) : ((getRepo repo).run (InMemoryState.exec D) s).2 = s := by
  cases h : s.branches (repo, defaultBranch) <;>
    simp [getRepo, ForgeStore.getBranch, InMemoryState.exec, h]

theorem run_getBlob (digest : String) :
    ((getBlob digest).run (InMemoryState.exec D) s).2 = s := by
  cases h : s.cas digest <;> simp [getBlob, ForgeStore.getBlob, InMemoryState.exec, h]

theorem run_getCommit (repo commitId : String) :
    ((getCommit repo commitId).run (InMemoryState.exec D) s).2 = s := by
  cases h : s.commits (repo, commitId) <;>
    simp [getCommit, ForgeStore.getCommit, InMemoryState.exec, h]

theorem run_getCommitManifest (repo commitId : String) :
    ((getCommitManifest repo commitId).run (InMemoryState.exec D) s).2 = s := by
  cases h : s.commits (repo, commitId) <;>
    simp [getCommitManifest, ForgeStore.getCommit, InMemoryState.exec, h]

theorem run_getRepoSource (repo : String) (ref : Option String) :
    ((getRepoSource D repo ref).run (InMemoryState.exec D) s).2 = s := by
  simp only [getRepoSource, ForgeStore.getBranch, ForgeStore.getCommit, Proc.bind_eq,
    Proc.bind_perform, Proc.run_call, InMemoryState.exec]
  cases hc : s.commits (repo, (s.branches (repo, ref.getD defaultBranch)).getD
      (ref.getD defaultBranch)) with
  | none =>
      rfl
  | some commit =>
      cases hp : preflightSource D commit <;> simp [hp]

/-! ## `post_commit_repo` -/

theorem step_postCommitRepo (owner repo : String) (payload : CommitPayload) :
    step D s (.postCommitRepo owner repo payload) =
      { s with
        commits :=
          let commit := archiveCommit D (owner ++ "/" ++ repo) payload
          s.commits.insert (commit.repo, commit.commitId) commit } := rfl

/-! ## `create_repo` -/

/-- The store after a repository has been initialised. -/
def InMemoryState.initRepo (D : Deployment) (s : InMemoryState) (repo : String)
    (isPrivate : Bool) : InMemoryState :=
  { s with
    repoPrivate := s.repoPrivate.insert repo isPrivate
    commits := s.commits.insert (repo, (rootCommit D repo).commitId) (rootCommit D repo)
    branches := s.branches.insert (repo, defaultBranch) (rootCommit D repo).commitId }

theorem run_createFreshRepo (repo : String) (isPrivate : Bool) :
    (createFreshRepo D repo isPrivate).run (InMemoryState.exec D) s =
      ({ status := .created
         body := .createRepo repo ("aivcs://" ++ repo) (rootCommit D repo).commitId },
        s.initRepo D repo isPrivate) := rfl

/-- The first create request of a repository initialises it. -/
theorem run_createRepo_of_absent {req : CreateRepoRequest} {repo : String}
    (hid : req.repoId = some repo) (hvalid : validRepo repo = true)
    (habsent : s.branches (repo, defaultBranch) = none) :
    (createRepo D req).run (InMemoryState.exec D) s =
      ({ status := .created
         body := .createRepo repo ("aivcs://" ++ repo) (rootCommit D repo).commitId },
        s.initRepo D repo (req.isPrivate.getD true)) := by
  rw [← run_createFreshRepo]
  simp [createRepo, hid, hvalid, ForgeStore.getBranch, InMemoryState.exec, habsent]

/-- The answer and the store of a create request: refused, an existing repository (at most its
visibility changes), or a fresh one. -/
theorem run_createRepo_cases (req : CreateRepoRequest) :
    (∃ r, r.status.isSuccess = false ∧ r.status ≠ .conflict ∧
      (createRepo D req).run (InMemoryState.exec D) s = (r, s)) ∨
    (∃ repo head r, req.repoId = some repo ∧ s.branches (repo, defaultBranch) = some head ∧
      r.status = .ok ∧
      ((createRepo D req).run (InMemoryState.exec D) s = (r, s) ∨
        ∃ isPrivate, (createRepo D req).run (InMemoryState.exec D) s =
          (r, { s with repoPrivate := s.repoPrivate.insert repo isPrivate }))) ∨
    ∃ repo isPrivate r, req.repoId = some repo ∧ s.branches (repo, defaultBranch) = none ∧
      r.status = .created ∧
      (createRepo D req).run (InMemoryState.exec D) s = (r, s.initRepo D repo isPrivate) := by
  cases hid : req.repoId with
  | none =>
      refine Or.inl ⟨err .badRequest "name or repo is required", rfl, by decide, ?_⟩
      simp only [createRepo, hid]
      rfl
  | some repo =>
      cases hvalid : validRepo repo with
      | false =>
          refine Or.inl ⟨_, ?_, ?_, by simp only [createRepo, hid, hvalid]; rfl⟩
          · rfl
          · decide
      | true =>
          cases hb : s.branches (repo, defaultBranch) with
          | none =>
              exact Or.inr (Or.inr ⟨repo, _, _, rfl, hb, rfl, run_createRepo_of_absent hid hvalid hb⟩)
          | some head =>
              have hrun : (createRepo D req).run (InMemoryState.exec D) s =
                  (createExistingRepo repo head req.isPrivate).run (InMemoryState.exec D) s := by
                simp [createRepo, hid, hvalid, ForgeStore.getBranch, InMemoryState.exec, hb]
              rw [hrun]
              refine Or.inr (Or.inl ⟨repo, head,
                { status := .ok, body := .createRepo repo ("aivcs://" ++ repo) head },
                rfl, hb, rfl, ?_⟩)
              cases hp : req.isPrivate with
              | none =>
                  exact Or.inl rfl
              | some isPrivate =>
                  exact Or.inr ⟨isPrivate, rfl⟩

/-! ## `create_commit` -/

/-- The digests the stored parents confer. -/
def InMemoryState.inherited (s : InMemoryState) (repo : String) (parents : List String) :
    List String :=
  parents.flatMap fun p =>
    match s.commits (repo, p) with
    | some parent => parent.manifest.map ManifestEntry.digest
    | none => []

/-- What `create_commit` checks: every digest is inherited from a stored parent or in CAS. -/
def InMemoryState.Validated (s : InMemoryState) (req : CreateCommitRequest) : Prop :=
  ∀ e ∈ req.manifest, e.digest ∈ s.inherited req.repo req.parents ∨ (s.cas e.digest).isSome = true

/-- The record `create_commit` stores. -/
def CreateCommitRequest.record (D : Deployment) (req : CreateCommitRequest) : CommitRecord :=
  { repo := req.repo
    commitId := identityDigest D (identity D req.repo (treeDigest D req.manifest) req.manifest
      req.parents req.message req.author)
    treeDigest := treeDigest D req.manifest
    manifest := req.manifest
    parents := req.parents
    message := req.message
    author := req.author }

theorem CreateCommitRequest.record_bound (req : CreateCommitRequest) : (req.record D).Bound D :=
  ⟨rfl, rfl⟩

theorem rootCommit_bound (repo : String) : (rootCommit D repo).Bound D :=
  ⟨rfl, rfl⟩

/-- Reading the record back out of its own JSON identity loses nothing. -/
theorem commitOfIdentity_eq_record (req : CreateCommitRequest) :
    commitOfIdentity D (identity D req.repo (treeDigest D req.manifest) req.manifest req.parents
      req.message req.author) = req.record D := by
  rcases identity_fields D req.repo (treeDigest D req.manifest) req.manifest req.parents
    req.message req.author with ⟨hrepo, htree, hman, hpar, hmsg, hauth⟩
  simp [commitOfIdentity, CreateCommitRequest.record, hrepo, htree, hman, hpar, hmsg, hauth,
    Json.asStr?, manifestOfValue?_manifestValue, stringsOfValue?_strings]

theorem run_inheritedDigests (repo : String) :
    ∀ parents : List String,
      (inheritedDigests repo parents).run (InMemoryState.exec D) s =
        (.ok (s.inherited repo parents), s)
  | [] => rfl
  | p :: parents => by
      have ih := run_inheritedDigests repo parents
      cases h : s.commits (repo, p) <;>
        simp [inheritedDigests, ForgeStore.getCommit, InMemoryState.exec, InMemoryState.inherited,
          h, ih]

theorem run_digestsRequiringValidation (repo : String) (parents : List String)
    (manifest : List ManifestEntry) :
    (digestsRequiringValidation repo parents manifest).run (InMemoryState.exec D) s =
      (.ok (freshDigests (s.inherited repo parents) [] manifest), s) := by
  simp [digestsRequiringValidation, run_inheritedDigests]

theorem mem_freshDigests {inherited : List String} {d : String} :
    ∀ (manifest : List ManifestEntry) (seen : List String),
      d ∈ freshDigests inherited seen manifest ↔
        d ∈ manifest.map ManifestEntry.digest ∧ d ∉ inherited ∧ d ∉ seen
  | [], seen => by
      simp [freshDigests]
  | e :: manifest, seen => by
      have ih := @mem_freshDigests inherited d manifest
      unfold freshDigests
      -- A skipped digest is inherited or seen; a kept one joins the seen ones.
      by_cases hskip : e.digest ∈ inherited ∨ e.digest ∈ seen
      · rw [if_pos hskip, ih seen, List.map_cons, List.mem_cons]
        constructor
        · rintro ⟨hmem, hinh, hseen⟩
          exact ⟨Or.inr hmem, hinh, hseen⟩
        · rintro ⟨rfl | hmem, hinh, hseen⟩
          · rcases hskip with h | h
            · exact absurd h hinh
            · exact absurd h hseen
          · exact ⟨hmem, hinh, hseen⟩
      · push Not at hskip
        rw [if_neg (by simpa using hskip), List.mem_cons, ih, List.map_cons, List.mem_cons,
          List.mem_cons]
        constructor
        · rintro (rfl | ⟨hmem, hinh, hseen⟩)
          · exact ⟨Or.inl rfl, hskip⟩
          · exact ⟨Or.inr hmem, hinh, fun h => hseen (Or.inr h)⟩
        · rintro ⟨hmem, hinh, hseen⟩
          by_cases hd : d = e.digest
          · exact Or.inl hd
          · refine Or.inr ⟨hmem.resolve_left hd, hinh, ?_⟩
            rintro (h | h)
            · exact hd h
            · exact hseen h

/-- The first digest that is not in CAS, among those to be checked. -/
theorem find?_missing_eq_none (digests : List String) :
    ((digests.zip (digests.map fun d => (s.cas d).isSome)).find? fun p => !p.2) = none ↔
      ∀ d ∈ digests, (s.cas d).isSome = true := by
  induction digests with
  | nil =>
      simp
  | cons d digests ih =>
      cases h : (s.cas d).isSome with
      | true =>
          simpa [h] using ih
      | false =>
          simp [h]

theorem validated_iff (req : CreateCommitRequest) :
    s.Validated req ↔
      ∀ d ∈ freshDigests (s.inherited req.repo req.parents) [] req.manifest,
        (s.cas d).isSome = true := by
  constructor
  · intro h d hd
    rcases (mem_freshDigests _ _).1 hd with ⟨hmem, hinh, -⟩
    rcases List.mem_map.1 hmem with ⟨e, he, rfl⟩
    exact (h e he).resolve_left hinh
  · intro h e he
    by_cases hinh : e.digest ∈ s.inherited req.repo req.parents
    · exact Or.inl hinh
    · refine Or.inr (h e.digest ((mem_freshDigests _ _).2 ⟨?_, hinh, by simp⟩))
      exact List.mem_map.2 ⟨e, he, rfl⟩

/-- An accepted commit is answered `201` with its derived id and stored under it. -/
theorem run_createCommit_of_validated {req : CreateCommitRequest} (h : s.Validated req) :
    (createCommit D req).run (InMemoryState.exec D) s =
      ({ status := .created
         body := .createCommit (req.record D).commitId (req.record D).treeDigest },
        { s with
          commits := s.commits.insert (req.repo, (req.record D).commitId) (req.record D) }) := by
  have hnone := (find?_missing_eq_none _).2 ((validated_iff req).1 h)
  simp only [createCommit, Proc.bind_eq, Proc.run_bind, run_digestsRequiringValidation,
    ForgeStore.existsAll, Proc.perform, Proc.run_call, Proc.run_ret, InMemoryState.exec, hnone]
  simp [storeCommit, ForgeStore.putCommit, InMemoryState.exec, commitOfIdentity_eq_record]
  rfl

/-- The answers of `exists_all` stay beside their digests. -/
theorem mem_of_find?_missing {digests : List String} {d : String} {b : Bool}
    (h : ((digests.zip (digests.map fun d => (s.cas d).isSome)).find? fun p => !p.2) =
      some (d, b)) : d ∈ digests ∧ s.cas d = none := by
  have hfalse := List.find?_some h
  have hmem := List.mem_of_find?_eq_some h
  rw [← List.map_prod_left_eq_zip] at hmem
  rcases List.mem_map.1 hmem with ⟨d', hd', heq⟩
  obtain ⟨rfl, rfl⟩ := Prod.mk.inj heq
  exact ⟨hd', by simpa using hfalse⟩

/-- A refused commit changes nothing, and the answer names an entry whose blob is not there. -/
theorem run_createCommit_of_not_validated {req : CreateCommitRequest} (h : ¬ s.Validated req) :
    ∃ e ∈ req.manifest, s.cas e.digest = none ∧
      (createCommit D req).run (InMemoryState.exec D) s =
        (err .unprocessableEntity ("blob not in CAS for " ++ e.path ++ ": " ++ e.digest), s) := by
  have hsome : ((freshDigests (s.inherited req.repo req.parents) [] req.manifest).zip
      ((freshDigests (s.inherited req.repo req.parents) [] req.manifest).map
        fun d => (s.cas d).isSome)).find? (fun p => !p.2) ≠ none := by
    intro hnone
    exact h ((validated_iff req).2 ((find?_missing_eq_none _).1 hnone))
  rcases Option.ne_none_iff_exists'.1 hsome with ⟨⟨d, b⟩, hd⟩
  rcases mem_of_find?_missing hd with ⟨hfresh, hmissing⟩
  -- The digest comes from the manifest, so the `expect` finds its entry.
  rcases List.mem_map.1 ((mem_freshDigests _ _).1 hfresh).1 with ⟨e₀, he₀, hdigest⟩
  cases hfind : req.manifest.find? fun e => e.digest = d with
  | none =>
      exact absurd (List.find?_eq_none.1 hfind e₀ he₀) (by simpa using hdigest)
  | some e =>
      have he : e.digest = d := by simpa using List.find?_some hfind
      refine ⟨e, List.mem_of_find?_eq_some hfind, he ▸ hmissing, ?_⟩
      simp only [createCommit, Proc.bind_eq, Proc.run_bind, run_digestsRequiringValidation,
        ForgeStore.existsAll, Proc.perform, Proc.run_call, Proc.run_ret, InMemoryState.exec, hd,
        hfind]
      rfl

theorem step_createCommit_of_validated {req : CreateCommitRequest} (h : s.Validated req) :
    step D s (.createCommit req) =
      { s with
        commits := s.commits.insert (req.repo, (req.record D).commitId) (req.record D) } :=
  congrArg Prod.snd (run_createCommit_of_validated h)

theorem step_createCommit_of_not_validated {req : CreateCommitRequest} (h : ¬ s.Validated req) :
    step D s (.createCommit req) = s := by
  rcases run_createCommit_of_not_validated (D := D) h with ⟨e, -, -, hrun⟩
  exact congrArg Prod.snd hrun

/-! ## `publish_atomic` -/

/-- The publish requests that are carried out. -/
def InMemoryState.Accepts (D : Deployment) (s : InMemoryState) (req : AtomicPublishRequest) : Prop :=
  req.commit.repo = req.repo ∧
    s.atomicPublishGates D req.repo req.blobs req.commit req.branchUpdates = .ok ()

theorem step_publishAtomic_of_accepts {req : AtomicPublishRequest} (h : s.Accepts D req) :
    step D s (.publishAtomic req) =
      s.atomicPublishEffects D req.repo req.blobs req.commit req.branchUpdates := by
  rcases h with ⟨hrepo, hgates⟩
  simp [step, serve, handle, publishAtomic, hrepo, ForgeStore.atomicPublish, InMemoryState.exec,
    hgates]

/-- A refused publish changes nothing. -/
theorem step_publishAtomic_of_not_accepts {req : AtomicPublishRequest} (h : ¬ s.Accepts D req) :
    step D s (.publishAtomic req) = s := by
  by_cases hrepo : req.commit.repo = req.repo
  · rcases s.atomicPublishGates_cases D req.repo req.blobs req.commit req.branchUpdates
      with hok | ⟨e, he⟩
    · exact absurd ⟨hrepo, hok⟩ h
    · cases e <;>
        simp [step, serve, handle, publishAtomic, hrepo, ForgeStore.atomicPublish,
          InMemoryState.exec, he]
  · simp [step, serve, handle, publishAtomic, hrepo]

/-! ## `update_branch` -/

/-- A branch update leaves the store alone, or points the branch at a stored commit of its own
repository. -/
theorem run_updateBranch_cases (repo branch : String) (req : UpdateBranchRequest) :
    ((updateBranch D repo branch req).run (InMemoryState.exec D) s).2 = s ∨
      ((s.commits (repo, req.commitId)).isSome = true ∧
        ((updateBranch D repo branch req).run (InMemoryState.exec D) s).2 =
          { s with branches := s.branches.insert (repo, branch) req.commitId }) := by
  simp only [updateBranch, ForgeStore.getCommit, Proc.bind_eq, Proc.bind_perform, Proc.run_call,
    InMemoryState.exec]
  cases hc : s.commits (repo, req.commitId) with
  | none =>
      exact Or.inl rfl
  | some commit =>
      simp only [Option.isSome_some, true_and]
      split_ifs with hboth hexp hcas
      · exact Or.inl rfl
      · by_cases hhead : s.branches (repo, branch) = req.expectedHead
        · -- The swap succeeds, or it fails and the head is read for the answer.
          exact Or.inr (by simp [ForgeStore.casSetBranch, InMemoryState.exec, hhead])
        · exact Or.inl (by
            simp [ForgeStore.casSetBranch, ForgeStore.getBranch, InMemoryState.exec, hhead])
      · exact Or.inl rfl
      · exact Or.inr (by simp [ForgeStore.setBranch, InMemoryState.exec])

/-! ## Everything a request can do -/

/-- The ways a request can change the store, with what is known when it does. -/
inductive Writes (D : Deployment) (s : InMemoryState) : Request → InMemoryState → Prop
  | unchanged (req : Request) : Writes D s req s
  | visibility (req : CreateRepoRequest) (repo : String) (isPrivate : Bool) :
      Writes D s (.createRepo req) { s with repoPrivate := s.repoPrivate.insert repo isPrivate }
  | initRepo (req : CreateRepoRequest) (repo : String) (isPrivate : Bool)
      (habsent : s.branches (repo, defaultBranch) = none) :
      Writes D s (.createRepo req) (s.initRepo D repo isPrivate)
  | blob (bytes : Bytes) :
      Writes D s (.putBlob bytes) { s with cas := s.cas.insert (D.sha256Hex bytes) bytes }
  | commit (req : CreateCommitRequest) (hval : s.Validated req) :
      Writes D s (.createCommit req)
        { s with
          commits := s.commits.insert (req.repo, (req.record D).commitId) (req.record D) }
  | archive (owner repo : String) (payload : CommitPayload) (commit : CommitRecord)
      (hcommit : commit = archiveCommit D (owner ++ "/" ++ repo) payload) :
      Writes D s (.postCommitRepo owner repo payload)
        { s with commits := s.commits.insert (commit.repo, commit.commitId) commit }
  | publish (req : AtomicPublishRequest) (hacc : s.Accepts D req) :
      Writes D s (.publishAtomic req)
        (s.atomicPublishEffects D req.repo req.blobs req.commit req.branchUpdates)
  | branch (req : Request) (repo branch commitId : String)
      (hstored : (s.commits (repo, commitId)).isSome = true) :
      Writes D s req { s with branches := s.branches.insert (repo, branch) commitId }

/-- The only record a request can store that need not be bound to its content is the one an
accepted publish carries. -/
theorem Writes.commits_cases {req : Request} {s' : InMemoryState} (h : Writes D s req s') :
    s'.commits = s.commits ∨
      ∃ r : CommitRecord, s'.commits = s.commits.insert (r.repo, r.commitId) r ∧
        (r.Bound D ∨ ∃ pub, req = .publishAtomic pub ∧ s.Accepts D pub ∧ r = pub.commit) := by
  cases h with
  | unchanged =>
      exact Or.inl rfl
  | visibility =>
      exact Or.inl rfl
  | blob =>
      exact Or.inl rfl
  | branch =>
      exact Or.inl rfl
  | initRepo req repo isPrivate habsent =>
      exact Or.inr ⟨rootCommit D repo, rfl, Or.inl (rootCommit_bound repo)⟩
  | commit req hval =>
      exact Or.inr ⟨req.record D, rfl, Or.inl req.record_bound⟩
  | archive owner repo payload commit hcommit =>
      subst hcommit
      exact Or.inr ⟨_, rfl, Or.inl ⟨rfl, rfl⟩⟩
  | publish req hacc =>
      -- The one record that comes from the client as it is.
      exact Or.inr ⟨req.commit, rfl, Or.inr ⟨req, rfl, hacc, rfl⟩⟩

/-- Any state equal to the old one is an unchanged one. -/
theorem Writes.of_eq {req : Request} {s' : InMemoryState} (h : s' = s) : Writes D s req s' := by
  rw [h]
  exact .unchanged req

theorem writes_updateBranch (req : Request) (repo branch : String) (upd : UpdateBranchRequest) :
    Writes D s req ((updateBranch D repo branch upd).run (InMemoryState.exec D) s).2 := by
  rcases run_updateBranch_cases (D := D) (s := s) repo branch upd with h | ⟨hstored, h⟩
  · exact .of_eq h
  · rw [h]
    exact .branch req repo branch upd.commitId hstored

/-- One request does one of these things. -/
theorem writes_step (D : Deployment) (s : InMemoryState) (req : Request) :
    Writes D s req (step D s req) := by
  cases req with
  | putBlob bytes =>
      exact .blob bytes
  | createCommit req =>
      by_cases hval : s.Validated req
      · rw [step_createCommit_of_validated hval]
        exact .commit req hval
      · exact .of_eq (step_createCommit_of_not_validated hval)
  | publishAtomic req =>
      by_cases hacc : s.Accepts D req
      · rw [step_publishAtomic_of_accepts hacc]
        exact .publish req hacc
      · exact .of_eq (step_publishAtomic_of_not_accepts hacc)
  | createRepo req =>
      rcases run_createRepo_cases (D := D) (s := s) req with
        ⟨r, -, -, h⟩ | ⟨repo, head, r, -, -, -, h | ⟨isPrivate, h⟩⟩ |
          ⟨repo, isPrivate, r, -, habsent, -, h⟩
      · exact .of_eq (congrArg Prod.snd h)
      · exact .of_eq (congrArg Prod.snd h)
      · rw [show step D s (.createRepo req) = _ from congrArg Prod.snd h]
        exact .visibility req repo isPrivate
      · rw [show step D s (.createRepo req) = _ from congrArg Prod.snd h]
        exact .initRepo req repo isPrivate habsent
  | postCommitRepo owner repo payload =>
      exact .archive owner repo payload _ rfl
  | updateBranch repo branch upd =>
      exact writes_updateBranch _ repo branch upd
  | updateBranchDouble owner repo branch upd =>
      exact writes_updateBranch _ (owner ++ "/" ++ repo) branch upd
  | getBranch repo branch =>
      exact .of_eq (run_getBranch repo branch)
  | getBranchDouble owner repo branch =>
      exact .of_eq (run_getBranch (owner ++ "/" ++ repo) branch)
  | getRepo repo =>
      exact .of_eq (run_getRepo repo)
  | getRepoDouble owner repo =>
      exact .of_eq (run_getRepo (owner ++ "/" ++ repo))
  | getRepoSource repo ref =>
      exact .of_eq (run_getRepoSource repo ref)
  | getRepoSourceDouble owner repo ref =>
      exact .of_eq (run_getRepoSource (owner ++ "/" ++ repo) ref)
  | getCommitsRepo owner repo =>
      exact .unchanged _
  | getBlob digest =>
      exact .of_eq (run_getBlob digest)
  | getCommit repo commitId =>
      exact .of_eq (run_getCommit repo commitId)
  | getCommitManifest repo commitId =>
      exact .of_eq (run_getCommitManifest repo commitId)

end Forge
end Aivcs
