import Aivcs.Cli.Fetch
import Aivcs.Cli.NoLostPublish
import Aivcs.Forge.Integrity

/-!
# Cli.PublishFetch — what is fetched is what was published

Both halves run alone on the in-memory forge.  A publish that returns has stored the walked manifest
under the branch and has every content of the tree in the forge (`Landed`), although it sends only
one file per digest and none that the parent's manifest names.  A fetch of the branch into an empty
directory then writes exactly the files that were not ignored.
-/

namespace Aivcs
namespace Cli

open Aivcs.Lib
open Aivcs.Forge
open Aivcs.Lib.Proc

variable {D : Deployment} {s s' s'' : InMemoryState}

/-! ## Uploads -/

/-- The forge took in blobs and nothing else. -/
structure TookBlobs (D : Deployment) (s s' : InMemoryState) : Prop where
  commits : s'.commits = s.commits
  branches : s'.branches = s.branches
  kept : ∀ d, (s.cas d).isSome = true → (s'.cas d).isSome = true
  addressed : s.ContentAddressed D → s'.ContentAddressed D

theorem tookBlobs_refl (s : InMemoryState) : TookBlobs D s s :=
  ⟨rfl, rfl, fun _ h => h, fun h => h⟩

theorem tookBlobs_trans (h₁ : TookBlobs D s s') (h₂ : TookBlobs D s' s'') : TookBlobs D s s'' :=
  ⟨h₂.commits.trans h₁.commits, h₂.branches.trans h₁.branches, fun d h => h₂.kept d (h₁.kept d h),
    fun h => h₂.addressed (h₁.addressed h)⟩

theorem tookBlobs_putBlob (bytes : Bytes) :
    TookBlobs D s { s with cas := s.cas.insert (D.sha256Hex bytes) bytes } :=
  ⟨rfl, rfl, fun _ h => (Map.isSome_insert _ _ _ _).2 (Or.inr h),
    fun h => contentAddressed_insert h bytes⟩

/-- The file behind an entry is where the entry says, with the digest it says. -/
def Backed (D : Deployment) (tree : Tree) (e : ManifestEntry) : Prop :=
  ∃ data, tree.readFile e.path = some data ∧ D.sha256Hex data = e.digest

theorem wp_sendFile {tree : Tree} {e : ManifestEntry} (he : Backed D tree e) (s : InMemoryState) :
    Wp (InMemoryState.exec D) (fun _ _ => True) (TookBlobs D)
      (fun res s' => res = Except.ok () ∧ (s'.cas e.digest).isSome = true) (sendFile tree e) s := by
  rcases he with ⟨data, hdata, hdigest⟩
  unfold sendFile
  rw [hdata]
  intro _
  refine ⟨tookBlobs_putBlob data, ?_⟩
  intro s' hs'
  refine ⟨rfl, hs'.kept _ ?_⟩
  rw [← hdigest]
  simp [InMemoryState.exec]

/-- One upload task ends with the digest in the forge, sent or found. -/
theorem wp_uploadBlob (client : Client) {tree : Tree} {e : ManifestEntry} (he : Backed D tree e)
    (s : InMemoryState) :
    Wp (InMemoryState.exec D) (fun _ _ => True) (TookBlobs D)
      (fun res s' => res = Except.ok () ∧ (s'.cas e.digest).isSome = true)
      (uploadBlob client tree e) s := by
  unfold uploadBlob
  split_ifs with hskip
  · -- The probe reads only; what it finds stays.
    intro _
    refine ⟨tookBlobs_refl s, ?_⟩
    intro s' hs'
    cases hb : s.cas e.digest with
    | none =>
        simp only [InMemoryState.exec, hb]
        exact wp_sendFile he s'
    | some b =>
        have hsome : (s.cas e.digest).isSome = true := by simp [hb]
        simp only [InMemoryState.exec, hb]
        exact ⟨rfl, hs'.kept _ hsome⟩
  · exact wp_sendFile he s

theorem joinResults_ok : ∀ {results : List (Except String Unit)},
    (∀ (i : Nat) r, results[i]? = some r → r = .ok ()) → joinResults results = .ok ()
  | [], _ => rfl
  | r :: results, h => by
      obtain rfl := h 0 r rfl
      show joinResults results = .ok ()
      exact joinResults_ok (fun i r' hr' => h (i + 1) r' hr')

/-- Whatever the schedule, the uploads succeed and every entry's digest is in the forge. -/
theorem run_uploadBlobs (client : Client) (args : PublishArgs) {entries : List ManifestEntry}
    (hback : ∀ e ∈ entries, Backed D args.tree e) (s : InMemoryState) :
    ∃ s', (uploadBlobs client args entries).run (InMemoryState.exec D) s = (.ok (), s') ∧
      TookBlobs D s s' ∧ ∀ e ∈ entries, (s'.cas e.digest).isSome = true := by
  -- What each task is responsible for; it stays true while the others go on, as blobs are kept.
  let Q : Nat → Except String Unit → InMemoryState → Prop := fun i res s =>
    res = .ok () ∧ ∀ e, entries[i]? = some e → (s.cas e.digest).isSome = true
  have hstable : ∀ i a s s', Q i a s → TookBlobs D s s' → Q i a s' := by
    rintro i a s s' ⟨hok, hall⟩ hs'
    exact ⟨hok, fun e he => hs'.kept _ (hall e he)⟩
  have htasks : ∀ i p, (entries.map (uploadBlob client args.tree))[i]? = some p →
      ∀ s', TookBlobs D s s' →
        Wp (InMemoryState.exec D) (fun _ _ => True) (TookBlobs D) (Q i) p s' := by
    intro i p hp s' _
    rw [List.getElem?_map] at hp
    rcases Option.map_eq_some_iff.1 hp with ⟨e, he, rfl⟩
    refine (wp_uploadBlob client (hback e (List.mem_of_getElem? he)) s').mono ?_
    rintro res s'' ⟨hok, hsome⟩
    refine ⟨hok, ?_⟩
    intro e' he'
    rw [he] at he'
    obtain rfl := Option.some.inj he'
    exact hsome
  have hpar : Wp (InMemoryState.exec D) (fun _ _ => True) (TookBlobs D) _
      (Proc.par args.schedule (entries.map (uploadBlob client args.tree))) s :=
    Wp.evolves tookBlobs_refl tookBlobs_trans
      (Wp.par tookBlobs_refl tookBlobs_trans hstable htasks)
  have hrun := hpar.run (fun _ _ => trivial) tookBlobs_refl
  generalize hres : (Proc.par args.schedule (entries.map (uploadBlob client args.tree))).run
    (InMemoryState.exec D) s = res at hrun
  rcases res with ⟨results, s'⟩
  rcases hrun with ⟨htook, hlen, hall⟩
  refine ⟨s', ?_, htook, ?_⟩
  · simp only [uploadBlobs, Proc.bind_eq, Proc.run_bind, hres]
    rw [joinResults_ok fun i r hr => (hall i r hr).1]
    rfl
  · intro e he
    rcases List.mem_iff_getElem?.1 he with ⟨i, hi⟩
    have hlt : i < results.length := by
      rw [hlen, List.length_map]
      exact (List.getElem?_eq_some_iff.1 hi).1
    exact (hall i results[i] (List.getElem?_eq_getElem hlt)).2 e hi

/-! ## Which digests are sent -/

theorem mem_of_mem_dedupe {e : ManifestEntry} :
    ∀ {manifest : List ManifestEntry} {seen : List String},
      e ∈ dedupeBlobsByDigest seen manifest → e ∈ manifest
  | e' :: manifest, seen, h => by
      unfold dedupeBlobsByDigest at h
      split_ifs at h with hseen
      · exact List.mem_cons_of_mem _ (mem_of_mem_dedupe h)
      · rcases List.mem_cons.1 h with rfl | h
        · exact List.mem_cons_self
        · exact List.mem_cons_of_mem _ (mem_of_mem_dedupe h)

/-- Every digest of the manifest has a first entry. -/
theorem exists_mem_dedupe {e : ManifestEntry} :
    ∀ {manifest : List ManifestEntry} {seen : List String}, e ∈ manifest → e.digest ∉ seen →
      ∃ e' ∈ dedupeBlobsByDigest seen manifest, e'.digest = e.digest
  | e' :: manifest, seen, h, hnew => by
      unfold dedupeBlobsByDigest
      split_ifs with hseen
      · -- The digest was met before: this entry is dropped, and it cannot be the one looked for.
        rcases List.mem_cons.1 h with rfl | h
        · exact absurd hseen hnew
        · exact exists_mem_dedupe h hnew
      · by_cases heq : e'.digest = e.digest
        · exact ⟨e', List.mem_cons_self, heq⟩
        · have hmem : e ∈ manifest := by
            rcases List.mem_cons.1 h with rfl | h
            · exact absurd rfl heq
            · exact h
          -- The digest just met joins the seen ones; it is not that of the entry.
          have hnew' : e.digest ∉ e'.digest :: seen := by
            intro hin
            rcases List.mem_cons.1 hin with h' | h'
            · exact heq h'.symm
            · exact hnew h'
          rcases exists_mem_dedupe hmem hnew' with ⟨e'', hmem'', hd⟩
          exact ⟨e'', List.mem_cons_of_mem _ hmem'', hd⟩

/-- The two savings agree: a digest that is not sent is one the parent has. -/
theorem exists_mem_blobsToUpload {manifest : List ManifestEntry} (inherited : List String)
    {e : ManifestEntry} (he : e ∈ manifest) :
    e.digest ∈ inherited ∨ ∃ e' ∈ blobsToUpload manifest inherited, e'.digest = e.digest := by
  by_cases hinh : e.digest ∈ inherited
  · exact Or.inl hinh
  · rcases exists_mem_dedupe he List.not_mem_nil with ⟨e', he', hd⟩
    refine Or.inr ⟨e', List.mem_filter.2 ⟨he', ?_⟩, hd⟩
    simp [hd, hinh]

/-! ## Reading the forge -/

/-- Looking a branch up reads the forge only, and what it finds is the branch its URL names. -/
theorem run_resolveBranchOptional {client : Client} (hretries : client.downloadRetries ≠ 0)
    {repo branch repo' name : String} (hroute : branchRoute repo branch = .branch repo' name) :
    (resolveBranchOptional client repo branch).run (InMemoryState.exec D) s =
      (.ok (s.branches (repo', name)), s) := by
  unfold resolveBranchOptional requestBranch
  rw [if_neg hretries, hroute]
  cases hb : s.branches (repo', name) with
  | none =>
      simp [Forge.getBranch, ForgeStore.getBranch, InMemoryState.exec, hb, err]
  | some head =>
      simp [Forge.getBranch, ForgeStore.getBranch, InMemoryState.exec, hb, StatusCode.isSuccess]

theorem run_resolveBranchOptional_snd (client : Client) (repo branch : String) :
    ((resolveBranchOptional client repo branch).run (InMemoryState.exec D) s).2 = s := by
  by_cases hretries : client.downloadRetries = 0
  · rw [resolveBranchOptional, if_pos hretries]
    rfl
  · cases hroute : branchRoute repo branch with
    | branch repo' name => rw [run_resolveBranchOptional hretries hroute]
    | invalidUtf8 =>
        rw [resolveBranchOptional, if_neg hretries, requestBranch, hroute]
        rfl
    | noRoute =>
        rw [resolveBranchOptional, if_neg hretries, requestBranch, hroute]
        rfl

theorem run_fetchManifestDirect {repo commitId : String} {r : CommitRecord}
    (hr : s.commits (repo, commitId) = some r) :
    (fetchManifestDirect repo commitId).run (InMemoryState.exec D) s = (.ok r.manifest, s) := by
  simp [fetchManifestDirect, getCommitManifest, ForgeStore.getCommit, InMemoryState.exec, hr,
    StatusCode.isSuccess]

theorem run_fetchManifestDirect_of_absent {repo commitId : String}
    (hr : s.commits (repo, commitId) = none) :
    ∃ e, (fetchManifestDirect repo commitId).run (InMemoryState.exec D) s = (.error e, s) := by
  simp [fetchManifestDirect, getCommitManifest, ForgeStore.getCommit, InMemoryState.exec, hr,
    StatusCode.isSuccess, err]

/-- What the client takes from the parent's manifest is in the forge. -/
theorem run_inheritedFromParent (h : s.BlobsPresent) (repo : String) (parent : Option String) :
    ∃ inherited, (inheritedFromParent repo parent).run (InMemoryState.exec D) s = (inherited, s) ∧
      ∀ d ∈ inherited, (s.cas d).isSome = true := by
  cases parent with
  | none =>
      exact ⟨[], rfl, by simp⟩
  | some head =>
      cases hr : s.commits (repo, head) with
      | none =>
          -- A head without a record: the client goes on as if it inherited nothing.
          rcases run_fetchManifestDirect_of_absent (D := D) hr with ⟨e, he⟩
          exact ⟨[], by simp [inheritedFromParent, parentDigests, he], by simp⟩
      | some r =>
          refine ⟨(dedupeBlobsByDigest [] r.manifest).map ManifestEntry.digest, ?_, ?_⟩
          · simp [inheritedFromParent, parentDigests, run_fetchManifestDirect hr]
          · intro d hd
            rcases List.mem_map.1 hd with ⟨e, he, rfl⟩
            exact h _ _ hr e (mem_of_mem_dedupe he)

/-- Finding the parent writes at most the repository's own root commit. -/
theorem run_resolveParent (h : s.BlobsPresent) (ha : s.ContentAddressed D) {client : Client}
    {args : PublishArgs} {parent : Option String}
    (hrun : (resolveParent D client args).run (InMemoryState.exec D) s = (.ok parent, s')) :
    s'.BlobsPresent ∧ s'.ContentAddressed D := by
  have hsame := @run_resolveBranchOptional_snd D s client args.repo args.branch
  generalize hfirst : (resolveBranchOptional client args.repo args.branch).run (InMemoryState.exec D) s =
    res at hsame
  rcases res with ⟨found, s₁⟩
  obtain rfl : s₁ = s := hsame
  simp only [resolveParent, Proc.bind_eq, Proc.run_bind, hfirst] at hrun
  rcases found with e | _ | head
  · cases congrArg Prod.fst hrun
  · -- The only writes are those of a create request.
    let req : CreateRepoRequest :=
      { repo := some args.repo, name := none, org := none, isPrivate := args.isPrivate }
    have hs' : s' = Forge.step D s₁ (.createRepo req) := by
      simp only [Proc.run_bind] at hrun
      split_ifs at hrun with hstatus
      · cases congrArg Prod.fst hrun
      · exact (congrArg Prod.snd hrun).symm.trans (run_resolveBranchOptional_snd client _ _)
    rw [hs']
    exact ⟨h.step trivial, ha.step _⟩
  · cases hrun
    exact ⟨h, ha⟩

/-! ## Writing the commit and the branch -/

/-- A branch update that is not refused has moved the branch. -/
theorem run_updateBranch_success {repo branch : String} {req : UpdateBranchRequest} {r : Response}
    (hrun : (updateBranch D repo branch req).run (InMemoryState.exec D) s = (r, s'))
    (hr : r.status.isSuccess = true) :
    s' = { s with branches := s.branches.insert (repo, branch) req.commitId } := by
  simp only [updateBranch, ForgeStore.getCommit, Proc.bind_eq, Proc.bind_perform, Proc.run_call,
    InMemoryState.exec] at hrun
  cases hc : s.commits (repo, req.commitId) with
  | none =>
      simp only [hc, Proc.pure_eq, Proc.run_ret] at hrun
      cases hrun
      cases hr
  | some commit =>
      simp only [hc] at hrun
      -- Contradictory preconditions, compare-and-swap, a forge that insists on it, the plain write.
      split_ifs at hrun with hboth hexp hcas
      · cases hrun
        cases hr
      · by_cases hhead : s.branches (repo, branch) = req.expectedHead
        · simp [ForgeStore.casSetBranch, InMemoryState.exec, hhead] at hrun
          exact hrun.2.symm
        · simp [ForgeStore.casSetBranch, ForgeStore.getBranch, InMemoryState.exec, hhead] at hrun
          rw [← hrun.1] at hr
          cases hr
      · cases hrun
        cases hr
      · simp [ForgeStore.setBranch, InMemoryState.exec] at hrun
        exact hrun.2.symm

/-- The branch that a client moves is the one its URL names. -/
theorem run_moveBranch {client : Client} {repo branch commitId : String} {expected : Option String}
    (hrun : (moveBranch D client repo branch commitId expected).run (InMemoryState.exec D) s =
      (.ok (), s')) :
    ∃ repo' name, branchRoute repo branch = .branch repo' name ∧
      s' = { s with branches := s.branches.insert (repo', name) commitId } := by
  have hid : (branchPayload client commitId expected).commitId = commitId := by
    unfold branchPayload
    split_ifs
    · rfl
    · cases expected <;> rfl
  cases hroute : branchRoute repo branch with
  | invalidUtf8 =>
      rw [moveBranch, requestBranch, hroute] at hrun
      cases congrArg Prod.fst hrun
  | noRoute =>
      rw [moveBranch, requestBranch, hroute] at hrun
      cases congrArg Prod.fst hrun
  | branch repo' name =>
      generalize hupd : (updateBranch D repo' name (branchPayload client commitId expected)).run
        (InMemoryState.exec D) s = res
      rcases res with ⟨r, s₁⟩
      simp only [moveBranch, requestBranch, hroute, Proc.bind_eq, Proc.run_bind, hupd] at hrun
      split_ifs at hrun with hconflict hfail
      · cases congrArg Prod.fst hrun
      · cases congrArg Prod.fst hrun
      · have hs₁ := run_updateBranch_success hupd (by simpa using hfail)
        rw [hid] at hs₁
        refine ⟨repo', name, rfl, ?_⟩
        rw [← hs₁]
        exact (congrArg Prod.snd hrun).symm

/-- A commit whose digests are all in the forge is accepted. -/
theorem run_postCommit {client : Client} (hretries : client.uploadRetries ≠ 0)
    (req : CreateCommitRequest) (hblobs : ∀ e ∈ req.manifest, (s.cas e.digest).isSome = true) :
    (postCommit D client req).run (InMemoryState.exec D) s =
      (.ok (req.record D).commitId,
        { s with
          commits := s.commits.insert (req.repo, (req.record D).commitId) (req.record D) }) := by
  have hval : s.Validated req := fun e he => Or.inr (hblobs e he)
  unfold postCommit
  rw [if_neg hretries]
  simp [run_createCommit_of_validated hval, StatusCode.isSuccess]

/-! ## What a publish leaves behind -/

/-- The tree is in the forge: the branch that its URL names points at a commit with its manifest, and every
content the manifest names is stored under its digest. -/
structure Landed (D : Deployment) (args : PublishArgs) (s : InMemoryState) : Prop where
  addressed : s.ContentAddressed D
  blobs : ∀ e ∈ walkManifest D args.tree, (s.cas e.digest).isSome = true
  head : ∃ repo name c r, branchRoute args.repo args.branch = .branch repo name ∧
    s.branches (repo, name) = some c ∧
    s.commits (args.repo, c) = some r ∧ r.manifest = walkManifest D args.tree

theorem mem_walkManifest {tree : Tree} {e : ManifestEntry} :
    e ∈ walkManifest D tree ↔ ∃ f, tree.Keeps f ∧ entryOf D f = e := by
  unfold walkManifest sortByPath
  rw [List.mem_insertionSort, visitDir_eq, List.mem_map]
  simp only [Tree.mem_keptFiles, Tree.Keeps]

/-- The files behind the manifest of a well-formed tree are where it says. -/
theorem backed_of_mem_walkManifest {tree : Tree} (h : tree.WellFormed) {e : ManifestEntry}
    (he : e ∈ walkManifest D tree) : Backed D tree e := by
  rcases mem_walkManifest.1 he with ⟨f, hf, rfl⟩
  exact ⟨f.content, Tree.readFile_relPath h hf.1, rfl⟩

/-- Steps 2 and 3: uploads, commit, branch. -/
theorem landed_of_publishOnto (h : s.BlobsPresent) (ha : s.ContentAddressed D) {client : Client}
    (hretries : client.uploadRetries ≠ 0) {args : PublishArgs} (htree : args.tree.WellFormed)
    {parent : Option String} {c : String}
    (hrun : (publishOnto D client args (walkManifest D args.tree) parent).run
      (InMemoryState.exec D) s = (.ok c, s')) :
    Landed D args s' := by
  rcases run_inheritedFromParent (D := D) h args.repo parent with ⟨inherited, hinh, hinhs⟩
  have hback : ∀ e ∈ blobsToUpload (walkManifest D args.tree) inherited,
      Backed D args.tree e := by
    intro e he
    exact backed_of_mem_walkManifest htree (mem_of_mem_dedupe (List.mem_filter.1 he).1)
  rcases run_uploadBlobs client args hback s with ⟨s₁, hup, htook, hups⟩
  -- A digest is in the forge because it was sent, or because the parent has it.
  have hblobs : ∀ e ∈ walkManifest D args.tree, (s₁.cas e.digest).isSome = true := by
    intro e he
    rcases exists_mem_blobsToUpload inherited he with hd | ⟨e', he', hd⟩
    · exact htook.kept _ (hinhs _ hd)
    · rw [← hd]
      exact hups e' he'
  let req := commitRequest args (walkManifest D args.tree) parent
  have hpost := run_postCommit (D := D) hretries req hblobs
  simp only [publishOnto, commitAndMove, Proc.bind_eq, Proc.run_bind, hinh, hup] at hrun
  rw [hpost] at hrun
  generalize hmove : (moveBranch D client args.repo args.branch (req.record D).commitId parent).run
    (InMemoryState.exec D) { s₁ with
      commits := s₁.commits.insert (req.repo, (req.record D).commitId) (req.record D) } = res
  rcases res with ⟨moved, s₂⟩
  simp only [Proc.run_bind, hmove] at hrun
  cases moved with
  | error e =>
      cases congrArg Prod.fst hrun
  | ok _ =>
      obtain rfl : s₂ = s' := congrArg Prod.snd hrun
      obtain ⟨repo, name, hroute, hmoved⟩ := run_moveBranch hmove
      rw [hmoved]
      refine ⟨htook.addressed ha, hblobs, repo, name, (req.record D).commitId, req.record D, hroute, ?_, ?_,
        rfl⟩
      · exact Map.insert_self _ _ _
      · exact Map.insert_self _ _ _

theorem landed_of_publish (h : s.BlobsPresent) (ha : s.ContentAddressed D) {client : Client}
    (hretries : client.uploadRetries ≠ 0) {args : PublishArgs} (htree : args.tree.WellFormed)
    {c : String} (hrun : (publish D client args).run (InMemoryState.exec D) s = (.ok c, s')) :
    walkManifest D args.tree ≠ [] ∧ Landed D args s' := by
  unfold publish at hrun
  simp only at hrun
  split_ifs at hrun with hempty
  · cases congrArg Prod.fst hrun
  · generalize hparent : (resolveParent D client args).run (InMemoryState.exec D) s = res at hrun
    rcases res with ⟨parent, s₁⟩
    simp only [Proc.bind_eq, Proc.run_bind, hparent] at hrun
    cases parent with
    | error e =>
        cases congrArg Prod.fst hrun
    | ok parentHead =>
        rcases run_resolveParent h ha hparent with ⟨h₁, ha₁⟩
        refine ⟨by simpa using hempty, ?_⟩
        exact landed_of_publishOnto h₁ ha₁ hretries htree hrun

/-! ## Paths of a manifest -/

section ManifestPath

variable {tree : Tree} (htree : tree.WellFormed) {f : FileAt} (hf : f ∈ tree.files [])
include htree hf

theorem splitOn_entryPath : (relPath f.path).toList.splitOn '/' = f.path.map String.toList :=
  splitOn_relPath (Tree.path_ne_nil_of_mem_files hf)
    (Tree.validName_of_mem_files htree (by simp) hf)

theorem pathComponents_entryPath : pathComponents (relPath f.path) = f.path :=
  pathComponents_relPath (Tree.path_ne_nil_of_mem_files hf)
    (Tree.validName_of_mem_files htree (by simp) hf)

theorem namesDirectory_entryPath : namesDirectory (relPath f.path) = false := by
  have hne := Tree.path_ne_nil_of_mem_files hf
  -- The last component is a name, neither empty nor a dot.
  have hlast := Tree.validName_of_mem_files htree (by simp) hf _ (List.getLast_mem hne)
  unfold namesDirectory
  rw [splitOn_entryPath htree hf, List.getLast?_map, List.getLast?_eq_some_getLast hne]
  simp only [Option.map_some]
  have h₁ : (f.path.getLast hne).toList ≠ [] := by
    simpa using hlast.1
  have h₂ : (f.path.getLast hne).toList ≠ ['.'] := by
    intro heq
    exact hlast.2.1 (String.toList_inj.1 heq)
  simp [h₁, h₂]

/-- A path `walk_manifest` wrote passes the check of `fetch`. -/
theorem ensureSafeRepoPath_entryPath : ensureSafeRepoPath (relPath f.path) = .ok () := by
  have hne := Tree.path_ne_nil_of_mem_files hf
  have hvalid := Tree.validName_of_mem_files htree (by simp) hf
  have hsplit := splitOn_entryPath htree hf
  have hempty : relPath f.path ≠ "" := by
    intro h
    have hcomp := pathComponents_entryPath htree hf
    rw [h] at hcomp
    exact hne hcomp.symm
  have hslash : (relPath f.path).toList.head? ≠ some '/' := by
    intro h
    rcases List.head?_eq_some_iff.1 h with ⟨rest, hrest⟩
    -- A leading slash would make the first component empty.
    have hnil := List.splitOn_append_cons_self_of_not_mem (List.not_mem_nil (a := '/')) rest
    rw [List.nil_append] at hnil
    rw [hrest, hnil] at hsplit
    rcases List.map_eq_cons_iff.1 hsplit.symm with ⟨n, rest', hpath, hn, -⟩
    refine (hvalid n (by simp [hpath])).1 ?_
    simpa using hn
  have hback : '\\' ∉ (relPath f.path).toList := by
    rw [relPath_eq hvalid]
    intro h
    rcases mem_joinPath h with h | ⟨n, hn, h⟩
    · cases h
    · exact (hvalid n hn).2.2.2.2 h
  -- No component is a reference to the parent directory.
  have hup : ((relPath f.path).toList.splitOn '/').any (fun c => c = ['.', '.']) = false := by
    rw [hsplit, List.any_eq_false]
    intro c hc heq
    rcases List.mem_map.1 hc with ⟨n, hn, rfl⟩
    exact (hvalid n hn).2.2.1 (String.toList_inj.1 (by simpa using heq))
  unfold ensureSafeRepoPath
  simp [hempty, hslash, hback, hup]

end ManifestPath

/-! ## Grouping by digest -/

theorem flatten_pushGroup (e : ManifestEntry) :
    ∀ groups : List (String × List ManifestEntry),
      ((pushGroup e groups).flatMap Prod.snd).Perm (e :: groups.flatMap Prod.snd)
  | [] => List.Perm.refl _
  | (digest, entries) :: groups => by
      unfold pushGroup
      split_ifs with hd
      · simp only [List.flatMap_cons, List.append_assoc]
        exact List.perm_middle
      · simp only [List.flatMap_cons]
        exact ((flatten_pushGroup e groups).append_left entries).trans List.perm_middle

/-- Grouping loses no entry and makes none up. -/
theorem flatten_groupByDigest (pending : List ManifestEntry) :
    ((groupByDigest pending).flatMap Prod.snd).Perm pending := by
  -- Generalised over the groups that are there already, for the induction over the fold.
  have key : ∀ (pending : List ManifestEntry) (groups : List (String × List ManifestEntry)),
      ((pending.foldl (fun groups e => pushGroup e groups) groups).flatMap Prod.snd).Perm
        (pending ++ groups.flatMap Prod.snd) := by
    intro pending
    induction pending with
    | nil =>
        intro groups
        exact List.Perm.refl _
    | cons e pending ih =>
        intro groups
        calc
          List.Perm (((e :: pending).foldl (fun groups e => pushGroup e groups) groups).flatMap
              Prod.snd) (pending ++ (pushGroup e groups).flatMap Prod.snd) := ih _
          List.Perm _ (pending ++ e :: groups.flatMap Prod.snd) :=
            (flatten_pushGroup e groups).append_left pending
          List.Perm _ (e :: pending ++ groups.flatMap Prod.snd) := List.perm_middle
  simpa [groupByDigest] using key pending []

/-- Each group is the entries of one digest, and at least one of them. -/
def Grouped (groups : List (String × List ManifestEntry)) : Prop :=
  ∀ g ∈ groups, g.2 ≠ [] ∧ ∀ e ∈ g.2, e.digest = g.1

theorem grouped_pushGroup (e : ManifestEntry) :
    ∀ {groups : List (String × List ManifestEntry)}, Grouped groups → Grouped (pushGroup e groups)
  | [], _ => by
      intro g hg
      obtain rfl := List.mem_singleton.1 hg
      simp
  | (digest, entries) :: groups, h => by
      have hhead := h (digest, entries) (by simp)
      have htail : Grouped groups := fun g hg => h g (by simp [hg])
      unfold pushGroup
      split_ifs with hd
      · intro g hg
        rcases List.mem_cons.1 hg with rfl | hg
        · refine ⟨by simp, ?_⟩
          intro e' he'
          rcases List.mem_append.1 he' with he' | he'
          · exact hhead.2 e' he'
          · rw [List.mem_singleton.1 he']
            exact hd.symm
        · exact htail g hg
      · intro g hg
        rcases List.mem_cons.1 hg with rfl | hg
        · exact hhead
        · exact grouped_pushGroup e htail g hg

theorem grouped_groupByDigest (pending : List ManifestEntry) : Grouped (groupByDigest pending) := by
  have key : ∀ (pending : List ManifestEntry) (groups : List (String × List ManifestEntry)),
      Grouped groups → Grouped (pending.foldl (fun groups e => pushGroup e groups) groups) := by
    intro pending
    induction pending with
    | nil =>
        intro groups h
        exact h
    | cons e pending ih =>
        intro groups h
        exact ih _ (grouped_pushGroup e h)
  exact key pending [] (by intro g hg; cases hg)

/-! ## Writing the files -/

/-- The file `fetch` makes of an entry when the forge is in state `s`. -/
def written (s : InMemoryState) (e : ManifestEntry) : FileAt :=
  { path := pathComponents e.path
    content := (s.cas e.digest).getD []
    executable := e.executable }

/-- An entry that can be written: a path that names a file, a content that is there. -/
structure Writable (s : InMemoryState) (e : ManifestEntry) : Prop where
  stored : (s.cas e.digest).isSome = true
  safe : ensureSafeRepoPath e.path = .ok ()
  isFile : namesDirectory e.path = false
  path : pathComponents e.path ≠ []

/-- Into an empty directory everything is downloaded. -/
theorem planDownloads_emptyDir {fs : Fs} (hfs : Represents fs []) :
    ∀ {manifest : List ManifestEntry}, (∀ e ∈ manifest, Writable s e) →
      planDownloads D fs manifest = .ok (manifest, 0)
  | [], _ => rfl
  | e :: manifest, h => by
      have he := h e (by simp)
      have ih := planDownloads_emptyDir hfs (fun e' he' => h e' (List.mem_cons_of_mem _ he'))
      simp [planDownloads, he.safe, fileMatchesDigest, hfs.read_notFound he.path, ih]

/-- One download written to all its paths. -/
theorem writeEntries_represents {bytes : Bytes} :
    ∀ {entries : List ManifestEntry} {fs : Fs} {done : List FileAt}, Represents fs done →
      (∀ e ∈ entries, Writable s e ∧ s.cas e.digest = some bytes) →
      (entries.map (written s) ++ done).Pairwise Incomparable →
      ∃ fs', writeEntries fs bytes entries = (.ok (), fs') ∧
        Represents fs' ((entries.map (written s)).reverse ++ done)
  | [], fs, done, hfs, _, _ => ⟨fs, rfl, hfs⟩
  | e :: entries, fs, done, hfs, h, hpw => by
      rcases h e (by simp) with ⟨he, hbytes⟩
      rcases List.pairwise_cons.1 hpw with ⟨hnew, hrest⟩
      have hpath : (written s e).path ≠ [] := he.path
      -- The new file is neither inside one of those written nor around one.
      have hinc : ∀ f ∈ done, Incomparable f (written s e) := fun f hf =>
        symm (hnew f (List.mem_append_right _ hf))
      rcases hfs.place hpath hinc with ⟨fs₁, hplace, hfs₁⟩
      have hwrite : writeEntry fs bytes e = (.ok (), fs₁) := by
        simp only [written, hbytes, Option.getD_some] at hplace
        simp [writeEntry, he.isFile, hplace]
      -- The new file goes over to those that are done; the order does not matter.
      have hpw₁ : (entries.map (written s) ++ written s e :: done).Pairwise Incomparable :=
        (List.perm_middle.pairwise_iff fun h => symm h).2 hpw
      rcases writeEntries_represents hfs₁ (fun e' he' => h e' (List.mem_cons_of_mem _ he')) hpw₁
        with ⟨fs', hwrites, hfs'⟩
      refine ⟨fs', by simp [writeEntries, hwrite, hwrites], ?_⟩
      simpa using hfs'

theorem run_downloadBlob {digest : String} {bytes : Bytes} (hb : s.cas digest = some bytes)
    (retries : Nat) :
    (downloadBlob digest retries).run (InMemoryState.exec D) s = (.ok bytes, s) := by
  cases retries <;>
    simp [downloadBlob, Forge.getBlob, ForgeStore.getBlob, InMemoryState.exec, hb, readDownload,
      StatusCode.isSuccess]

/-- All downloads, in whatever order they come. -/
theorem run_materialize (client : Client) :
    ∀ {groups : List (String × List ManifestEntry)} {fs : Fs} {done : List FileAt},
      Represents fs done → Grouped groups →
      (∀ e ∈ groups.flatMap Prod.snd, Writable s e) →
      ((groups.flatMap Prod.snd).map (written s) ++ done).Pairwise Incomparable →
      ∃ fs', (materialize client groups fs).run (InMemoryState.exec D) s = ((.ok (), fs'), s) ∧
        Represents fs' (((groups.flatMap Prod.snd).map (written s)).reverse ++ done)
  | [], fs, done, hfs, _, _, _ => ⟨fs, rfl, hfs⟩
  | (digest, entries) :: groups, fs, done, hfs, hgr, hwr, hpw => by
      rcases hgr (digest, entries) (by simp) with ⟨hne, hall⟩
      have hdigest : ∀ e ∈ entries, e.digest = digest := hall
      have hentries : ∀ e ∈ entries, Writable s e := fun e he =>
        hwr e (by simp [he])
      -- The group is not empty, so its digest is one of the stored ones.
      obtain ⟨bytes, hbytes⟩ : ∃ bytes, s.cas digest = some bytes := by
        rcases List.exists_mem_of_ne_nil entries hne with ⟨e, he⟩
        rw [← hdigest e he]
        exact Option.isSome_iff_exists.1 (hentries e he).stored
      simp only [List.flatMap_cons, List.map_append, List.append_assoc] at hpw
      have hrest : ((groups.flatMap Prod.snd).map (written s) ++
          ((entries.map (written s)).reverse ++ done)).Pairwise Incomparable := by
        refine (List.Perm.pairwise_iff (fun h => symm h) ?_).1 hpw
        calc
          List.Perm (entries.map (written s) ++ ((groups.flatMap Prod.snd).map (written s) ++ done))
              ((entries.map (written s)).reverse ++
                ((groups.flatMap Prod.snd).map (written s) ++ done)) :=
            (List.reverse_perm _).symm.append_right _
          List.Perm _ ((groups.flatMap Prod.snd).map (written s) ++
              ((entries.map (written s)).reverse ++ done)) := by
            rw [← List.append_assoc, ← List.append_assoc]
            exact List.perm_append_comm.append_right done
      have hfirst : (entries.map (written s) ++ done).Pairwise Incomparable := by
        refine hpw.sublist ?_
        exact (List.sublist_append_right _ _).append_left _
      rcases writeEntries_represents hfs
        (fun e he => ⟨hentries e he, by rw [hdigest e he, hbytes]⟩) hfirst with ⟨fs₁, hwrite, hfs₁⟩
      rcases run_materialize client hfs₁ (fun g hg => hgr g (List.mem_cons_of_mem _ hg))
        (fun e he => hwr e (by simp only [List.flatMap_cons, List.mem_append]; exact Or.inr he))
        hrest with ⟨fs', hrun, hfs'⟩
      refine ⟨fs', ?_, ?_⟩
      · simp [materialize, run_downloadBlob hbytes, hwrite, hrun]
      · simpa using hfs'

/-! ## Fetching what was published -/

/-- The files that are not ignored, in the order of the manifest. -/
theorem walkManifest_perm (tree : Tree) :
    (walkManifest D tree).Perm ((tree.keptFiles tree.ignorePatterns []).map (entryOf D)) := by
  unfold walkManifest sortByPath
  rw [visitDir_eq]
  exact List.perm_insertionSort _ _

/-- The file made of an entry is the one the entry was made of: the stored content has the digest of
the published one, so it is the published one. -/
theorem written_entryOf (hsha : Function.Injective D.sha256Hex) (ha : s.ContentAddressed D)
    {tree : Tree} (htree : tree.WellFormed) {f : FileAt} (hf : f ∈ tree.files [])
    (hstored : (s.cas (entryOf D f).digest).isSome = true) : written s (entryOf D f) = f := by
  rcases Option.isSome_iff_exists.1 hstored with ⟨bytes, hbytes⟩
  -- Both contents have the digest of the entry.
  have hcontent : bytes = f.content := hsha (ha _ _ hbytes)
  have hpath : pathComponents (entryOf D f).path = f.path := pathComponents_entryPath htree hf
  unfold written
  rw [hbytes, hcontent, hpath]
  rfl

theorem writable_entryOf {tree : Tree} (htree : tree.WellFormed) {f : FileAt}
    (hf : f ∈ tree.files []) (hstored : (s.cas (entryOf D f).digest).isSome = true) :
    Writable s (entryOf D f) where
  stored := hstored
  safe := ensureSafeRepoPath_entryPath htree hf
  isFile := namesDirectory_entryPath htree hf
  path := by
    show pathComponents (relPath f.path) ≠ []
    rw [pathComponents_entryPath htree hf]
    exact Tree.path_ne_nil_of_mem_files hf

theorem run_resolveRef {client : Client} (hretries : client.downloadRetries ≠ 0)
    {repo branch repo' name c : String} (hbranch : isCommitRef branch = false)
    (hroute : branchRoute repo branch = .branch repo' name)
    (hhead : s.branches (repo', name) = some c) :
    (resolveRef client repo branch).run (InMemoryState.exec D) s = (.ok c, s) := by
  simp [resolveRef, hbranch, resolveBranch, run_resolveBranchOptional hretries hroute, hhead]

theorem run_loadManifest {repo c : String} {r : CommitRecord}
    (hr : s.commits (repo, c) = some r) (hne : r.manifest ≠ []) :
    (loadManifest repo c).run (InMemoryState.exec D) s = (.ok r.manifest, s) := by
  simp [loadManifest, run_fetchManifestDirect hr, hne]

/-- Once the tree is in the forge, fetching its branch into an empty directory writes it. -/
theorem run_fetch_of_landed (hsha : Function.Injective D.sha256Hex) {client : Client}
    (hretries : client.downloadRetries ≠ 0) {args : PublishArgs} (htree : args.tree.WellFormed)
    (hbranch : isCommitRef args.branch = false) (hempty : walkManifest D args.tree ≠ [])
    (h : Landed D args s) (order : Arrangement (String × List ManifestEntry)) :
    ∃ fs, (fetch D client order args.repo args.branch Fs.emptyDir).run (InMemoryState.exec D) s =
        ((.ok (), fs), s) ∧
      ∀ f : FileAt, fs f.path = some (.file f.content f.executable) ↔ args.tree.Keeps f := by
  rcases h.head with ⟨repo, name, c, r, hroute, hhead, hr, hman⟩
  let manifest := walkManifest D args.tree
  let groups := order.arrange (groupByDigest manifest)
  -- Neither the grouping nor the order of the downloads changes which entries there are.
  have hperm : (groups.flatMap Prod.snd).Perm manifest :=
    ((order.perm _).flatMap_right _).trans (flatten_groupByDigest manifest)
  have hwritable : ∀ e ∈ manifest, Writable s e := by
    intro e he
    rcases mem_walkManifest.1 he with ⟨f, hf, rfl⟩
    exact writable_entryOf htree hf.1 (h.blobs _ he)
  -- The files written are the files kept, in some order.
  have hfiles : ((groups.flatMap Prod.snd).map (written s)).Perm
      (args.tree.keptFiles args.tree.ignorePatterns []) := by
    refine ((hperm.trans (walkManifest_perm args.tree)).map (written s)).trans ?_
    rw [List.map_map]
    refine List.Perm.of_eq ((List.map_congr_left ?_).trans (List.map_id _))
    intro f hf
    have hmem := Tree.mem_keptFiles.1 hf
    exact written_entryOf hsha h.addressed htree hmem.1
      (h.blobs _ (mem_walkManifest.2 ⟨f, hmem, rfl⟩))
  -- Paths of one tree never run through each other, so every file finds its place.
  have hpw : ((groups.flatMap Prod.snd).map (written s) ++ []).Pairwise Incomparable := by
    rw [List.append_nil]
    refine (hfiles.pairwise_iff fun h => symm h).2 ?_
    exact (Tree.files_incomparable htree []).sublist List.filter_sublist
  have hgrouped : Grouped groups := fun g hg =>
    grouped_groupByDigest manifest g ((order.perm _).mem_iff.1 hg)
  rcases run_materialize (D := D) client represents_emptyDir hgrouped
    (fun e he => hwritable e (hperm.mem_iff.1 he)) hpw with ⟨fs, hrun, hfs⟩
  have hplan : planDownloads D Fs.emptyDir manifest = .ok (manifest, 0) :=
    planDownloads_emptyDir represents_emptyDir hwritable
  refine ⟨fs, ?_, ?_⟩
  · have hload := run_loadManifest (D := D) hr (by rw [hman]; exact hempty)
    rw [hman] at hload
    have hroot : Fs.emptyDir.createDirAll [] [] = .ok Fs.emptyDir := by
      simp [Fs.createDirAll, Fs.emptyDir]
    simp [fetch, run_resolveRef hretries hbranch hroute hhead, hload, hempty, fetchManifest, hroot, hplan,
      hrun, manifest, groups]
  · intro f
    rw [hfs.file_iff]
    simp only [List.append_nil, List.mem_reverse]
    rw [hfiles.mem_iff, Tree.mem_keptFiles]
    rfl

/-- If the publish returns, a fetch of its branch into an empty directory succeeds and brings back
every file that was not ignored, with its content and mode, and no other file. -/
def RoundTrips (D : Deployment) (publisher reader : Client) (args : PublishArgs)
    (order : Arrangement (String × List ManifestEntry)) (s : InMemoryState) : Prop :=
  ∀ commitId s', (publish D publisher args).run (InMemoryState.exec D) s = (.ok commitId, s') →
    ∃ fs, (fetch D reader order args.repo args.branch Fs.emptyDir).run (InMemoryState.exec D) s' =
        ((.ok (), fs), s') ∧
      ∀ f : FileAt, fs f.path = some (.file f.content f.executable) ↔ args.tree.Keeps f

theorem publish_fetch_round_trip (D : Deployment) (hsha : Function.Injective D.sha256Hex)
    (s : InMemoryState) (haddressed : s.ContentAddressed D) (hblobs : s.BlobsPresent)
    (publisher reader : Client) (hupload : publisher.uploadRetries ≠ 0)
    (hdownload : reader.downloadRetries ≠ 0) (args : PublishArgs) (htree : args.tree.WellFormed)
    (hbranch : isCommitRef args.branch = false)
    (order : Arrangement (String × List ManifestEntry)) :
    RoundTrips D publisher reader args order s := by
  intro commitId s' hpublish
  rcases landed_of_publish hblobs haddressed hupload htree hpublish with ⟨hempty, hlanded⟩
  exact run_fetch_of_landed hsha hdownload htree hbranch hempty hlanded order

/-! ## Where the round trip ends -/

/-- The digests of a race, and that of the commit of the same tree without a parent. -/
def tripDigests : List (Bytes × String) :=
  (utf8 ("\x7b\"author\":\"a\",\"manifest\":[\x7b\"digest\":\"8f434346648f6b96df89" ++
      "dda901c5176b10a6d83961dd3c1ac88b59b2dc327aa4\",\"executable\":false,\"pa" ++
      "th\":\"f\",\"size\":2\x7d],\"message\":\"m\",\"parents\":[],\"repo\":\"demo" ++
      "\",\"tree_digest\":\"95f40242209189509de63d9af4133d9d16336befffde2a21b22" ++
      "642a38f3bbace\"\x7d"),
    "a4c2e6f59866158c7592ae5b31b312068002717329f5f4ac40b030efc94e9a96") :: raceDigests

theorem tripDigests_injective : Function.Injective (Deployment.ofTable tripDigests).sha256Hex :=
  tableDigest_injective (by decide +kernel) (by decide +kernel)

/-- Downloads taken in as the manifest has them. -/
def inOrder (α : Type) : Arrangement α :=
  { arrange := id, perm := List.Perm.refl }

theorem contentAddressed_of_no_blobs (h : s.cas = ∅) : s.ContentAddressed D := by
  intro d b hb
  rw [h] at hb
  cases hb

/-- A first publish of one file on an empty forge returns, and the file comes back. -/
theorem publish_fetch_of_one_file :
    ((publish (.ofTable tripDigests) .default raceArgs).run
        (InMemoryState.exec (.ofTable tripDigests)) .empty).1 =
      .ok "e9cf97238d271ae900867aeef5c7c2029303bdd20dcf846e2082f7d5f3328fdc" ∧
    RoundTrips (.ofTable tripDigests) .default .default raceArgs (inOrder _) .empty := by
  refine ⟨by decide +kernel, ?_⟩
  refine publish_fetch_round_trip (.ofTable tripDigests) tripDigests_injective .empty
    (contentAddressed_of_no_blobs rfl) InMemoryState.blobsPresent_empty .default .default
    (by decide) (by decide) raceArgs ?_ (by decide +kernel) (inOrder _)
  simp [raceArgs, Tree.WellFormed, ValidName, Tree.names]

/-- The same publish to a branch whose name is 64 hexadecimal digits. -/
def hexArgs : PublishArgs :=
  { raceArgs with branch := "aaaaaaaaaaaaaaaaaaaaaaaaaaaaaaaaaaaaaaaaaaaaaaaaaaaaaaaaaaaaaaaa" }

/-- A forge that took a made-up record under the id of the commit to come. -/
def forgedForge : InMemoryState :=
  { InMemoryState.empty with
    commits := InMemoryState.empty.commits.insert
      ("demo", "e9cf97238d271ae900867aeef5c7c2029303bdd20dcf846e2082f7d5f3328fdc")
      { repo := "demo"
        commitId := "e9cf97238d271ae900867aeef5c7c2029303bdd20dcf846e2082f7d5f3328fdc"
        treeDigest := "", manifest := [], parents := [], message := "", author := "" } }

/-- A publish that returns and a fetch that fails on what it left. -/
theorem not_roundTrips {publisher reader : Client} {args : PublishArgs}
    {order : Arrangement (String × List ManifestEntry)} {commitId message : String}
    (hruns : ((publish D publisher args).run (InMemoryState.exec D) s).1 = .ok commitId ∧
      ((fetch D reader order args.repo args.branch Fs.emptyDir).run (InMemoryState.exec D)
        ((publish D publisher args).run (InMemoryState.exec D) s).2).1.1 = .error message) :
    ¬ RoundTrips D publisher reader args order s := by
  obtain ⟨hpublish, hfetch⟩ := hruns
  intro h
  rcases h commitId _ (Prod.ext hpublish rfl) with ⟨fs, hok, -⟩
  rw [hok] at hfetch
  cases hfetch

/-- Three ways to publish and not to get back: a branch name that reads as a commit id, a client
that makes no attempt to post and finds a record of someone else under its id, a client that makes
no attempt to read the branch. -/
theorem round_trip_exceptions :
    ¬ RoundTrips (.ofTable tripDigests) .default .default hexArgs (inOrder _) .empty ∧
    (forgedForge.ContentAddressed (.ofTable tripDigests) ∧ forgedForge.BlobsPresent ∧
      ¬ RoundTrips (.ofTable tripDigests) { Client.default with uploadRetries := 0 } .default
        raceArgs (inOrder _) forgedForge) ∧
    ¬ RoundTrips (.ofTable tripDigests) .default { Client.default with downloadRetries := 0 }
      raceArgs (inOrder _) .empty := by
  refine ⟨?_, ⟨contentAddressed_of_no_blobs rfl, ?_, ?_⟩, ?_⟩
  · exact @not_roundTrips _ _ _ _ _ _
      "a4c2e6f59866158c7592ae5b31b312068002717329f5f4ac40b030efc94e9a96"
      ("commit 'aaaaaaaaaaaaaaaaaaaaaaaaaaaaaaaaaaaaaaaaaaaaaaaaaaaaaaaaaaaaaaaa' not found " ++
        "(HTTP 404 Not Found)") (by decide +kernel)
  · exact InMemoryState.blobsPresent_empty.insert_commit (by simp)
  · exact @not_roundTrips _ _ _ _ _ _
      "e9cf97238d271ae900867aeef5c7c2029303bdd20dcf846e2082f7d5f3328fdc"
      ("commit 'e9cf97238d271ae900867aeef5c7c2029303bdd20dcf846e2082f7d5f3328fdc' has empty " ++
        "manifest — refusing to materialize phantom repo") (by decide +kernel)
  · exact @not_roundTrips _ _ _ _ _ _
      "e9cf97238d271ae900867aeef5c7c2029303bdd20dcf846e2082f7d5f3328fdc"
      "branch retry loop always returns" (by decide +kernel)

end Cli
end Aivcs
