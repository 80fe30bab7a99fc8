import Aivcs.Cli.PublishFetch
import Aivcs.Lib.Hash

/-!
# Cli.FetchModes — what a fetch leaves in a directory that is not empty

The forge is any that answers a request for a blob with bytes of that digest, and the directory holds
anything.  When `fetch` returns, every path of the manifest holds a file with the digest of its
entry, downloaded or reused.

The modes are another matter.  A download sets `0o755` on an executable entry, but nothing takes the
bit away from an old file that is written over, and a file that is reused is not looked at beyond its
bytes.  `ModeFits` says when the mode comes out right all the same.
-/

namespace Aivcs
namespace Cli

open Aivcs.Lib
open Aivcs.Forge
open Aivcs.Lib.Proc

variable {D : Deployment} {σ : Type} {exec : (op : ForgeOp) → σ → op.Ans × σ} {Serving : σ → Prop}

/-! ## Downloads -/

/-- A forge that, in the states it can be in, answers `get_blob` with bytes of the digest asked
for, if it answers with bytes. -/
structure Honest (D : Deployment) (exec : (op : ForgeOp) → σ → op.Ans × σ)
    (Serving : σ → Prop) : Prop where
  step : ∀ op s, Serving s → Serving (exec op s).2
  blob : ∀ s digest bytes, Serving s → (exec (.getBlob digest) s).1 = .ok (some bytes) →
    D.sha256Hex bytes = digest

theorem Honest.run {α : Type} (hf : Honest D exec Serving) (p : ForgeProc α) {s : σ}
    (hs : Serving s) : Serving (p.run exec s).2 := by
  induction p generalizing s with
  | ret a =>
      exact hs
  | call op next ih =>
      exact ih _ (hf.step op s hs)

/-- A blob in an answer of `get_blob` has the digest. -/
theorem digest_of_getBlob (hf : Honest D exec Serving) {digest : String} {bytes : Bytes} {s : σ}
    (hs : Serving s) (h : ((Forge.getBlob digest).run exec s).1.body = .blob bytes) :
    D.sha256Hex bytes = digest := by
  simp only [Forge.getBlob, ForgeStore.getBlob, Proc.bind_eq, Proc.bind_perform,
    Proc.run_call] at h
  cases hans : (exec (.getBlob digest) s).1 with
  | error e =>
      simp only [hans] at h
      cases h
  | ok found =>
      cases found with
      | none =>
          simp only [hans] at h
          cases h
      | some b =>
          simp only [hans] at h
          cases h
          exact hf.blob s digest bytes hs hans

theorem digest_of_readDownload {digest : String} {bytes : Bytes} {s : σ} {resp : Response}
    {again : ForgeProc (Except String Bytes)}
    (hresp : resp.body = .blob bytes → D.sha256Hex bytes = digest)
    (hagain : (again.run exec s).1 = .ok bytes → D.sha256Hex bytes = digest)
    (h : ((readDownload digest again resp).run exec s).1 = .ok bytes) :
    D.sha256Hex bytes = digest := by
  unfold readDownload at h
  split_ifs at h with hok hretry
  · split at h
    · rename_i hbody
      cases h
      exact hresp hbody
    · cases h
  · exact hagain h
  · cases h

/-- What a download brings has the digest that was asked for, however often it was tried. -/
theorem digest_of_downloadBlob (hf : Honest D exec Serving) {digest : String} {bytes : Bytes}
    {retries : Nat} {s : σ} (hs : Serving s)
    (h : ((downloadBlob digest retries).run exec s).1 = .ok bytes) : D.sha256Hex bytes = digest := by
  -- On the attempts that are left; each begins where the last one left the forge.
  induction retries generalizing s with
  | zero =>
      unfold downloadBlob at h
      rw [Proc.bind_eq, Proc.run_bind] at h
      refine digest_of_readDownload (digest_of_getBlob hf hs) ?_ h
      intro hagain
      cases hagain
  | succ retries ih =>
      unfold downloadBlob at h
      rw [Proc.bind_eq, Proc.run_bind] at h
      exact digest_of_readDownload (digest_of_getBlob hf hs)
        (ih (hf.run (Forge.getBlob digest) hs)) h

/-! ## What is put in place -/

/-- The file a download makes of an entry. -/
def fileOf (bytes : Bytes) (e : ManifestEntry) : FileAt :=
  { path := pathComponents e.path, content := bytes, executable := e.executable }

/-- The file is the one an entry asks for. -/
def Delivers (D : Deployment) (e : ManifestEntry) (f : FileAt) : Prop :=
  ∃ bytes, f = fileOf bytes e ∧ D.sha256Hex bytes = e.digest

theorem writeEntries_ok {bytes : Bytes} {entries : List ManifestEntry} {fs fs' : Fs}
    (h : writeEntries fs bytes entries = (.ok (), fs')) :
    fs.placeAll (entries.map (fileOf bytes)) = (.ok (), fs') := by
  induction entries generalizing fs with
  | nil =>
      cases h
      rfl
  | cons e entries ih =>
      unfold writeEntries at h
      split at h
      · cases h
      · rename_i fs₁ hwrite
        unfold writeEntry at hwrite
        split_ifs at hwrite with hdir
        · -- a path with a slash at its end is never written
          split at hwrite <;> cases hwrite
        · split at hwrite
          · cases hwrite
          · rename_i hplace
            cases hwrite
            rw [List.map_cons, Fs.placeAll]
            simp only [fileOf, hplace]
            exact ih h

/-- The second loop, when it succeeds, has put the file of every entry in place. -/
theorem materialize_ok (hf : Honest D exec Serving) {client : Client}
    {groups : List (String × List ManifestEntry)} (hgr : Grouped groups) {fs fs' : Fs} {s s' : σ}
    (hs : Serving s) (h : (materialize client groups fs).run exec s = ((.ok (), fs'), s')) :
    ∃ files, fs.placeAll files = (.ok (), fs') ∧
      List.Forall₂ (Delivers D) (groups.flatMap Prod.snd) files := by
  induction groups generalizing fs s with
  | nil =>
      cases h
      exact ⟨[], rfl, .nil⟩
  | cons g groups ih =>
      rcases g with ⟨digest, entries⟩
      unfold materialize at h
      rw [Proc.bind_eq, Proc.run_bind] at h
      generalize hdown : (downloadBlob digest client.downloadRetries).run exec s = res at h
      rcases res with ⟨res, s₁⟩
      have hs₁ : Serving s₁ := by
        have hrun := hf.run (downloadBlob digest client.downloadRetries) hs
        rwa [hdown] at hrun
      cases res with
      | error e =>
          cases h
      | ok bytes =>
          -- All entries of the group have the digest that was asked for.
          have hdigest : D.sha256Hex bytes = digest :=
            digest_of_downloadBlob hf hs (congrArg Prod.fst hdown)
          simp only at h
          split at h
          · cases h
          · rename_i fs₁ hwrite
            rcases ih (fun g hg => hgr g (List.mem_cons_of_mem _ hg)) hs₁ h with
              ⟨files, hplace, hfiles⟩
            refine ⟨entries.map (fileOf bytes) ++ files, ?_, ?_⟩
            · rw [Fs.placeAll_append files (writeEntries_ok hwrite)]
              exact hplace
            · rw [List.flatMap_cons]
              refine List.rel_append ?_ hfiles
              refine List.forall₂_map_right_iff.2 (List.forall₂_same.2 ?_)
              intro e he
              have hdigest' : e.digest = digest := (hgr (digest, entries) List.mem_cons_self).2 e he
              exact ⟨bytes, rfl, hdigest.trans hdigest'.symm⟩

/-! ## What is found -/

theorem fileMatchesDigest_true {fs : Fs} {e : ManifestEntry}
    (h : fileMatchesDigest D fs e = .ok true) :
    ∃ content executable, fs.walk [] (pathComponents e.path) = .ok (.file content executable) ∧
      D.sha256Hex content = e.digest := by
  unfold fileMatchesDigest Fs.read at h
  cases hwalk : fs.walk [] (pathComponents e.path) with
  | error err =>
      cases err <;> simp [hwalk] at h
  | ok node =>
      cases node with
      | dir =>
          simp [hwalk] at h
      | file content executable =>
          simp only [hwalk] at h
          split_ifs at h with hdir
          refine ⟨content, executable, rfl, ?_⟩
          simpa using h

/-- A file that is to be replaced does not have the digest. -/
theorem digest_ne_of_fileMatchesDigest {fs : Fs} {e : ManifestEntry}
    (h : fileMatchesDigest D fs e = .ok false) {content : Bytes} {executable : Bool}
    (hwalk : fs.walk [] (pathComponents e.path) = .ok (.file content executable)) :
    D.sha256Hex content ≠ e.digest := by
  unfold fileMatchesDigest Fs.read at h
  simp only [hwalk] at h
  split_ifs at h with hdir
  simpa using h

/-- What the first loop leaves to the second: the entries whose file is not there with its digest. -/
structure Planned (D : Deployment) (fs : Fs) (manifest pending : List ManifestEntry) : Prop where
  sublist : pending.Sublist manifest
  stale : ∀ e ∈ pending, fileMatchesDigest D fs e = .ok false
  rest : ∀ e ∈ manifest, e ∉ pending → fileMatchesDigest D fs e = .ok true

theorem Planned.cons_reused {fs : Fs} {manifest pending : List ManifestEntry} {e : ManifestEntry}
    (h : Planned D fs manifest pending) (hfound : fileMatchesDigest D fs e = .ok true) :
    Planned D fs (e :: manifest) pending where
  sublist := h.sublist.cons e
  stale := h.stale
  rest := by
    intro e' he' hnot
    rcases List.mem_cons.1 he' with rfl | he'
    · exact hfound
    · exact h.rest e' he' hnot

theorem Planned.cons_pending {fs : Fs} {manifest pending : List ManifestEntry} {e : ManifestEntry}
    (h : Planned D fs manifest pending) (hstale : fileMatchesDigest D fs e = .ok false) :
    Planned D fs (e :: manifest) (e :: pending) where
  sublist := h.sublist.cons_cons e
  stale := by
    intro e' he'
    rcases List.mem_cons.1 he' with rfl | he'
    · exact hstale
    · exact h.stale e' he'
  rest := by
    intro e' he' hnot
    rcases List.mem_cons.1 he' with rfl | he'
    · exact absurd List.mem_cons_self hnot
    · exact h.rest e' he' fun hmem => hnot (List.mem_cons_of_mem _ hmem)

theorem planDownloads_ok {fs : Fs} {manifest pending : List ManifestEntry} {reused : Nat}
    (h : planDownloads D fs manifest = .ok (pending, reused)) : Planned D fs manifest pending := by
  induction manifest generalizing pending reused with
  | nil =>
      cases h
      exact ⟨List.Sublist.refl _, by simp, by simp⟩
  | cons e manifest ih =>
      unfold planDownloads at h
      split at h
      · cases h
      · split at h
        · cases h
        · rename_i found hfound
          split at h
          · cases h
          · rename_i pending' reused' hplan
            cases found with
            | true =>
                cases h
                exact (ih hplan).cons_reused hfound
            | false =>
                cases h
                exact (ih hplan).cons_pending hfound

/-! ## What a fetch leaves behind -/

/-- Two entries of which neither is the other's file or inside it. -/
def Apart (a b : ManifestEntry) : Prop :=
  ¬ pathComponents a.path <+: pathComponents b.path ∧
    ¬ pathComponents b.path <+: pathComponents a.path

instance : Std.Symm Apart where
  symm := fun _ _ h => ⟨h.2, h.1⟩

/-- The file of an entry is there with its digest and its mode. -/
def Materialized (D : Deployment) (fs : Fs) (e : ManifestEntry) : Prop :=
  ∃ content, fs.walk [] (pathComponents e.path) = .ok (.file content e.executable) ∧
    D.sha256Hex content = e.digest

/-- What is in the place of an entry will not spoil its mode: no file is there, or one with the mode
of the entry, or one that has other bytes and is to become executable. -/
def ModeFits (D : Deployment) (fs : Fs) (e : ManifestEntry) : Prop :=
  ∀ content executable, fs (pathComponents e.path) = some (.file content executable) →
    executable = e.executable ∨ (e.executable = true ∧ D.sha256Hex content ≠ e.digest)

/-- The file of an entry has the digest, and it has the mode just in case what was there before
fitted. -/
def Settled (D : Deployment) (fs fs' : Fs) (e : ManifestEntry) : Prop :=
  ∃ content executable, fs'.walk [] (pathComponents e.path) = .ok (.file content executable) ∧
    D.sha256Hex content = e.digest ∧ (executable = e.executable ↔ ModeFits D fs e)

theorem Settled.materialized_iff {fs fs' : Fs} {e : ManifestEntry} (h : Settled D fs fs' e) :
    Materialized D fs' e ↔ ModeFits D fs e := by
  rcases h with ⟨content, executable, hwalk, hdigest, hmode⟩
  rw [← hmode]
  constructor
  · rintro ⟨content', hwalk', -⟩
    rw [hwalk] at hwalk'
    cases hwalk'
    rfl
  · rintro rfl
    exact ⟨content, hwalk, hdigest⟩

/-- The files brought for entries that are apart are not inside each other. -/
theorem incomparable_of_delivers {entries : List ManifestEntry} {files : List FileAt}
    (h : List.Forall₂ (Delivers D) entries files) (hapart : entries.Pairwise Apart) :
    files.Pairwise Incomparable := by
  let R : List String → List String → Prop := fun p q => ¬ p <+: q ∧ ¬ q <+: p
  have hpaths : entries.map (fun e => pathComponents e.path) = files.map FileAt.path := by
    refine map_eq_of_forall₂ ?_ h
    rintro e f ⟨bytes, rfl, -⟩
    rfl
  have hR : (entries.map fun e => pathComponents e.path).Pairwise R :=
    List.pairwise_map.2 hapart
  rw [hpaths] at hR
  exact (List.pairwise_map (f := FileAt.path) (R := R)).1 hR

section Settling

variable {fs fs₀ fs' : Fs} {manifest pending entries : List ManifestEntry} {files : List FileAt}
  {e : ManifestEntry}

/-- A file that was found in the directory, once its root was made, was there before. -/
theorem file_before (hmk : fs.createDirAll [] [] = .ok fs₀) {path : List String} {content : Bytes}
    {executable : Bool} (hwalk : fs₀.walk [] path = .ok (.file content executable)) :
    fs path = some (.file content executable) :=
  (Fs.keptAt_of_createDirAll hmk path).of_file (Fs.walk_ok_iff.1 hwalk).1

/-- A file that was there is found once the root was made. -/
theorem file_found (htree : fs.IsTree) (hmk : fs.createDirAll [] [] = .ok fs₀) {path : List String}
    {content : Bytes} {executable : Bool} (hnode : fs path = some (.file content executable)) :
    fs₀.walk [] path = .ok (.file content executable) :=
  Fs.walk_of_keptAt (htree.walk_eq hnode) fun p _ => Fs.keptAt_of_createDirAll hmk p

/-- A file that is reused: nothing that is written touches it, so it has the mode it had. -/
theorem settled_of_reused (hmk : fs.createDirAll [] [] = .ok fs₀)
    (hfound : fileMatchesDigest D fs₀ e = .ok true)
    (hkept : ∀ p, p <+: pathComponents e.path → Fs.KeptAt fs₀ fs' p) : Settled D fs fs' e := by
  rcases fileMatchesDigest_true hfound with ⟨content, executable, hwalk, hdigest⟩
  have hbefore := file_before hmk hwalk
  refine ⟨content, executable, Fs.walk_of_keptAt hwalk hkept, hdigest, ?_⟩
  constructor
  · intro hmode content' executable' hnode
    rw [hbefore] at hnode
    cases hnode
    exact Or.inl hmode
  · intro hfits
    rcases hfits content executable hbefore with hmode | ⟨-, hne⟩
    · exact hmode
    · exact absurd hdigest hne

/-- A file that is written: an old one keeps the executable bit it has. -/
theorem settled_of_written (htree : fs.IsTree) (hmk : fs.createDirAll [] [] = .ok fs₀)
    (hstale : fileMatchesDigest D fs₀ e = .ok false) {bytes : Bytes}
    (hdigest : D.sha256Hex bytes = e.digest)
    (hwalk : fs'.walk [] (pathComponents e.path) =
      .ok (.file bytes (e.executable || fs₀.executableAt (pathComponents e.path)))) :
    Settled D fs fs' e := by
  refine ⟨bytes, _, hwalk, hdigest, ?_⟩
  -- Making the root touches no file, so the bit is the one from before the fetch.
  rw [(Fs.keptAt_of_createDirAll hmk _).executableAt_eq]
  constructor
  · intro hmode content executable hnode
    have hne := digest_ne_of_fileMatchesDigest hstale (file_found htree hmk hnode)
    simp only [Fs.executableAt, hnode] at hmode
    cases hx : e.executable with
    | true =>
        exact Or.inr ⟨rfl, hne⟩
    | false =>
        rw [hx, Bool.false_or] at hmode
        exact Or.inl hmode
  · intro hfits
    cases hx : e.executable with
    | true =>
        rfl
    | false =>
        rw [Bool.false_or]
        unfold Fs.executableAt
        split
        · rename_i content executable hnode
          rcases hfits content executable hnode with hmode | ⟨htrue, -⟩
          · exact hmode.trans hx
          · rw [hx] at htrue
            cases htrue
        · rfl

theorem settled_of_placed (htree : fs.IsTree) (hmk : fs.createDirAll [] [] = .ok fs₀)
    (hapart : manifest.Pairwise Apart) (hplan : Planned D fs₀ manifest pending)
    (hperm : entries.Perm pending) (hfiles : List.Forall₂ (Delivers D) entries files)
    (hplace : fs₀.placeAll files = (.ok (), fs')) (he : e ∈ manifest) : Settled D fs fs' e := by
  have hapart' : entries.Pairwise Apart :=
    (hperm.pairwise_iff fun h => symm h).2 (hapart.sublist hplan.sublist)
  rcases Fs.placeAll_ok hplace (incomparable_of_delivers hfiles hapart') with ⟨hwritten, hkept⟩
  by_cases hpend : e ∈ pending
  · rcases exists_left_of_forall₂ hfiles.flip (hperm.mem_iff.2 hpend) with
      ⟨f, hf, bytes, rfl, hdigest⟩
    exact settled_of_written htree hmk (hplan.stale e hpend) hdigest (hwritten _ hf)
  · refine settled_of_reused hmk (hplan.rest e he hpend) ?_
    intro p hp
    refine hkept p ?_
    rintro f hf rfl
    rcases exists_left_of_forall₂ hfiles hf with ⟨e', he', bytes, rfl, -⟩
    -- The file written would be that of another entry, above the reused one.
    have hpend' := hperm.mem_iff.1 he'
    have hne : e' ≠ e := by
      rintro rfl
      exact hpend hpend'
    exact (hapart.forall (hplan.sublist.subset hpend') he hne).1 hp

/-- What a manifest asks for, after a fetch of it that succeeds. -/
theorem settled_of_fetchManifest (hf : Honest D exec Serving) (htree : fs.IsTree)
    (hapart : manifest.Pairwise Apart) {client : Client}
    {order : Arrangement (String × List ManifestEntry)} {commitId : String} {s s' : σ}
    (hs : Serving s)
    (h : (fetchManifest D client order commitId manifest fs).run exec s = ((.ok (), fs'), s'))
    (he : e ∈ manifest) : Settled D fs fs' e := by
  unfold fetchManifest at h
  split at h
  · cases h
  · rename_i fs₀ hmk
    split at h
    · cases h
    · rename_i pending reused hplan
      rw [Proc.bind_eq, Proc.run_bind] at h
      generalize hmat : (materialize client (order.arrange (groupByDigest pending)) fs₀).run exec s =
        res at h
      rcases res with ⟨⟨res, fs₁⟩, s₁⟩
      cases res with
      | error err =>
          cases h
      | ok _ =>
          simp only at h
          split_ifs at h with hzero
          · cases h
          · cases h
            -- Neither grouping nor the order of the downloads changes which entries there are.
            have hgr : Grouped (order.arrange (groupByDigest pending)) := fun g hg =>
              grouped_groupByDigest pending g ((order.perm _).mem_iff.1 hg)
            have hperm : ((order.arrange (groupByDigest pending)).flatMap Prod.snd).Perm pending :=
              ((order.perm _).flatMap_right _).trans (flatten_groupByDigest pending)
            rcases materialize_ok hf hgr hs hmat with ⟨files, hplace, hfiles⟩
            exact settled_of_placed htree hmk hapart (planDownloads_ok hplan) hperm hfiles hplace he

end Settling

/-- A run of `fetch` that succeeds has found the commit and its manifest. -/
theorem fetch_ok {client : Client} {order : Arrangement (String × List ManifestEntry)}
    {repo gitRef commitId : String} {manifest : List ManifestEntry} {fs fs' : Fs} {s s₁ s₂ s' : σ}
    (hid : (resolveRef client repo gitRef).run exec s = (.ok commitId, s₁))
    (hman : (loadManifest repo commitId).run exec s₁ = (.ok manifest, s₂))
    (hok : (fetch D client order repo gitRef fs).run exec s = ((.ok (), fs'), s')) :
    (fetchManifest D client order commitId manifest fs).run exec s₂ = ((.ok (), fs'), s') := by
  unfold fetch at hok
  rw [Proc.bind_eq, Proc.run_bind, hid] at hok
  simp only at hok
  rw [Proc.bind_eq, Proc.run_bind, hman] at hok
  simp only at hok
  split_ifs at hok with hempty
  · cases hok
  · exact hok

/-- After a fetch that succeeds, whatever was in the directory, every entry of the manifest has its
file, with its digest; all of them have their modes just in case what was there before fitted. -/
theorem fetch_materializes_iff (hf : Honest D exec Serving) {client : Client}
    {order : Arrangement (String × List ManifestEntry)} {repo gitRef commitId : String}
    {manifest : List ManifestEntry} {fs fs' : Fs} {s s₁ s₂ s' : σ} (hs : Serving s)
    (htree : fs.IsTree) (hid : (resolveRef client repo gitRef).run exec s = (.ok commitId, s₁))
    (hman : (loadManifest repo commitId).run exec s₁ = (.ok manifest, s₂))
    (hapart : manifest.Pairwise Apart)
    (hok : (fetch D client order repo gitRef fs).run exec s = ((.ok (), fs'), s')) :
    (∀ e ∈ manifest, ∃ bytes, fs'.read (pathComponents e.path) = .ok bytes ∧
      D.sha256Hex bytes = e.digest) ∧
    ((∀ e ∈ manifest, Materialized D fs' e) ↔ ∀ e ∈ manifest, ModeFits D fs e) := by
  have hs₂ : Serving s₂ := by
    have h₁ := hf.run (resolveRef client repo gitRef) hs
    rw [hid] at h₁
    have h₂ := hf.run (loadManifest repo commitId) h₁
    rwa [hman] at h₂
  have hsettled : ∀ e ∈ manifest, Settled D fs fs' e := fun e he =>
    settled_of_fetchManifest hf htree hapart hs₂ (fetch_ok hid hman hok) he
  refine ⟨?_, ?_⟩
  · intro e he
    rcases hsettled e he with ⟨content, executable, hwalk, hdigest, -⟩
    exact ⟨content, by rw [Fs.read, hwalk], hdigest⟩
  · exact forall₂_congr fun e he => (hsettled e he).materialized_iff

/-! ## A store whose blobs lie under their digests -/

theorem honest_inMemory (D : Deployment) :
    Honest D (InMemoryState.exec D) (InMemoryState.ContentAddressed D) where
  step := by
    intro op s hs
    cases op with
    | putBlob bytes =>
        exact contentAddressed_insert hs bytes
    | atomicPublish repo blobs commit branchUpdates =>
        cases hg : s.atomicPublishGates D repo blobs commit branchUpdates with
        | error e =>
            simp only [InMemoryState.exec, hg]
            exact hs
        | ok _ =>
            simp only [InMemoryState.exec, hg]
            exact contentAddressed_foldl blobs hs
    | casSetBranch repo branch expected commitId =>
        by_cases hhead : s.branches (repo, branch) = expected
        · simp only [InMemoryState.exec, if_pos hhead]
          exact hs
        · simp only [InMemoryState.exec, if_neg hhead]
          exact hs
    | _ =>
        exact hs
  blob := by
    intro s digest bytes hs h
    exact hs digest bytes (Except.ok.inj h)

/-! ## Modes that come out wrong -/

def scriptDigests : List (Bytes × String) :=
  [(utf8 "hi", "8f434346648f6b96df89dda901c5176b10a6d83961dd3c1ac88b59b2dc327aa4"),
    (utf8 "old", "cba06b5736faf67e54b07b561eae94395e774c517a7d910a54369e1263ccfbd4")]

def scriptEntry (executable : Bool) : ManifestEntry :=
  { path := "run.sh"
    digest := "8f434346648f6b96df89dda901c5176b10a6d83961dd3c1ac88b59b2dc327aa4"
    executable := executable
    size := 2 }

def scriptCommit : String :=
  "cccccccccccccccccccccccccccccccccccccccccccccccccccccccccccccccc"

/-- A forge with one commit of one file that says "hi". -/
def scriptForge (executable : Bool) : InMemoryState :=
  { cas := (∅ : Map String Bytes).insert (scriptEntry executable).digest (utf8 "hi")
    commits := (∅ : Map (String × String) CommitRecord).insert ("demo", scriptCommit)
      { repo := "demo", commitId := scriptCommit, treeDigest := ""
        manifest := [scriptEntry executable], parents := [], message := "", author := "" }
    branches := (∅ : Map (String × String) String).insert ("demo", "main") scriptCommit
    repoPrivate := ∅ }

def scriptFile (content : String) (executable : Bool) : FileAt :=
  { path := ["run.sh"], content := utf8 content, executable := executable }

/-- An output directory with that file, as someone left it. -/
def scriptDirectory (content : String) (executable : Bool) : Fs :=
  (Fs.emptyDir.placeAll [scriptFile content executable]).2

theorem contentAddressed_scriptForge (executable : Bool) :
    (scriptForge executable).ContentAddressed (.ofTable scriptDigests) := by
  refine contentAddressed_insert (D := .ofTable scriptDigests) ?_ (utf8 "hi")
  intro d b h
  cases h

theorem isTree_scriptDirectory (content : String) (executable : Bool) :
    (scriptDirectory content executable).IsTree := by
  obtain ⟨fs, hplace, hfs⟩ : ∃ fs, Fs.emptyDir.placeAll [scriptFile content executable] =
      (.ok (), fs) ∧ Represents fs ([scriptFile content executable].reverse ++ []) :=
    represents_emptyDir.placeAll (by simp [scriptFile]) (by simp) (by simp)
  unfold scriptDirectory
  rw [hplace]
  exact Fs.isTree_of_represents hfs

theorem run_resolveRef_script (executable : Bool) :
    (resolveRef .default "demo" "main").run (InMemoryState.exec (.ofTable scriptDigests))
      (scriptForge executable) = (.ok scriptCommit, scriptForge executable) := by
  have hhead : (scriptForge executable).branches ("demo", "main") = some scriptCommit := by
    simp [scriptForge]
  have hroute : branchRoute "demo" "main" = .branch "demo" "main" := by
    decide +kernel
  exact run_resolveRef (by decide) (by decide +kernel) hroute hhead

theorem run_loadManifest_script (executable : Bool) :
    (loadManifest "demo" scriptCommit).run (InMemoryState.exec (.ofTable scriptDigests))
      (scriptForge executable) = (.ok [scriptEntry executable], scriptForge executable) := by
  have hcommit : (scriptForge executable).commits ("demo", scriptCommit) =
      some { repo := "demo", commitId := scriptCommit, treeDigest := ""
             manifest := [scriptEntry executable], parents := [], message := "", author := "" } := by
    simp [scriptForge]
  exact run_loadManifest hcommit (List.cons_ne_nil _ _)

/-- Fetch the commit into the directory. -/
def fetchScript (entryMode : Bool) (content : String) (fileMode : Bool) :
    (Except String Unit × Fs) × InMemoryState :=
  (fetch (.ofTable scriptDigests) .default (inOrder _) "demo" "main"
    (scriptDirectory content fileMode)).run (InMemoryState.exec (.ofTable scriptDigests))
      (scriptForge entryMode)

/-- Over a stale file that is not executable, an executable one is written as it should be. -/
theorem fetch_materializes_iff_script :
    (∀ e ∈ [scriptEntry true], ∃ bytes,
      (fetchScript true "old" false).1.2.read (pathComponents e.path) = .ok bytes ∧
        (Deployment.ofTable scriptDigests).sha256Hex bytes = e.digest) ∧
    ((∀ e ∈ [scriptEntry true],
        Materialized (.ofTable scriptDigests) (fetchScript true "old" false).1.2 e) ↔
      ∀ e ∈ [scriptEntry true],
        ModeFits (.ofTable scriptDigests) (scriptDirectory "old" false) e) := by
  have hok : (fetchScript true "old" false).1.1 = .ok () := by decide +kernel
  exact fetch_materializes_iff (honest_inMemory _) (contentAddressed_scriptForge true)
    (isTree_scriptDirectory "old" false) (run_resolveRef_script true) (run_loadManifest_script true)
    (by simp) (Prod.ext (Prod.ext hok rfl) rfl)

/-- What a fetch promises: if it returns, the directory is as the manifest says. -/
def Fetches {σ : Type} (D : Deployment) (exec : (op : ForgeOp) → σ → op.Ans × σ) (client : Client)
    (order : Arrangement (String × List ManifestEntry)) (repo gitRef : String) (fs : Fs) (s : σ) :
    Prop :=
  ∀ commitId s₁ manifest s₂ fs' s',
    (resolveRef client repo gitRef).run exec s = (.ok commitId, s₁) →
    (loadManifest repo commitId).run exec s₁ = (.ok manifest, s₂) →
    manifest.Pairwise Apart →
    (fetch D client order repo gitRef fs).run exec s = ((.ok (), fs'), s') →
    ∀ e ∈ manifest, Materialized D fs' e

/-- A fetch that returns and leaves the script with the other mode. -/
theorem not_fetches {entryMode fileMode : Bool} {content : String} {bytes : Bytes}
    (h : (fetchScript entryMode content fileMode).1.1 = .ok () ∧
      (fetchScript entryMode content fileMode).1.2 ["run.sh"] =
        some (.file bytes (!entryMode))) :
    ¬ Fetches (.ofTable scriptDigests) (InMemoryState.exec (.ofTable scriptDigests)) .default
      (inOrder _) "demo" "main" (scriptDirectory content fileMode) (scriptForge entryMode) := by
  rcases h with ⟨hok, hnode⟩
  intro h
  rcases h _ _ _ _ _ _ (run_resolveRef_script entryMode) (run_loadManifest_script entryMode)
    (by simp) (Prod.ext (Prod.ext hok rfl) rfl) (scriptEntry entryMode) (by simp) with
    ⟨content', hwalk, -⟩
  have hpath : pathComponents "run.sh" = ["run.sh"] := by decide +kernel
  rw [scriptEntry, hpath] at hwalk
  have hfile := (Fs.walk_ok_iff.1 hwalk).1
  rw [List.nil_append] at hfile
  have hmode := hnode.symm.trans hfile
  cases entryMode <;> cases hmode

/-- Two directories that keep a wrong mode: the file is there and not executable, as it should be,
so it is reused; a stale one is executable, as it should not be, and is written over. -/
theorem fetch_keeps_wrong_modes :
    (∀ executable, (scriptForge executable).ContentAddressed (.ofTable scriptDigests)) ∧
    (∀ content executable, (scriptDirectory content executable).IsTree) ∧
    ¬ Fetches (.ofTable scriptDigests) (InMemoryState.exec (.ofTable scriptDigests)) .default
      (inOrder _) "demo" "main" (scriptDirectory "hi" false) (scriptForge true) ∧
    ¬ Fetches (.ofTable scriptDigests) (InMemoryState.exec (.ofTable scriptDigests)) .default
      (inOrder _) "demo" "main" (scriptDirectory "old" true) (scriptForge false) :=
  ⟨contentAddressed_scriptForge, isTree_scriptDirectory,
    @not_fetches true false "hi" (utf8 "hi") (by decide +kernel),
    @not_fetches false true "old" (utf8 "hi") (by decide +kernel)⟩

end Cli
end Aivcs
