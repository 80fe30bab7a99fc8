import Aivcs.Release.Gates

/-!
# Release.Published — a release as a whole

`run_release` under a world that answers as it likes.

* `published_checked` — what is written or published comes after every gate, and is what they have checked;
* `released` — a release that succeeds has published everywhere it was not told to skip;
* `failed_last` — after a step that fails nothing more is done.
-/

namespace Aivcs
namespace Release
namespace Pipeline

open Lib

section Published

variable {N : Type} {env : Env N} {opts : ReleaseOptions} {root version : String} {tr : Trace} {α : Type}

/-! ## What is published -/

/-- What may be written and run once the gates have let through. -/
def publishActs (opts : ReleaseOptions) (root version : String) (cleared : Cleared) (tempDir : String) : List Act :=
  let tag := "v" ++ version
  (if opts.skipGithub then []
    else [.write (notesPath opts) cleared.notes, .run (ghView opts tag), .run (ghUpload opts tag),
      .run (ghEdit opts tag), .run (ghCreate opts tag version)]) ++
  (if opts.skipHomebrew then []
    else opts.homebrewTapDir.toList.flatMap fun tap =>
      [.write (join tap "Formula/aivcs.rb") (tapFormula version cleared.digests), .run (gitAdd tap),
        .run (gitDiff tap), .run (gitCommit tap version), .run (gitPush tap), .run brewReinstall,
        .run brewTest]) ++
  [.write (join root "Formula/aivcs.rb") (inRepoFormula version)] ++
  (if opts.dockerRelease && !opts.skipLinux then
    [.write (join (dockerDir tempDir version) "Dockerfile") dockerfile,
      .run (imageBuild (dockerDir tempDir version) version "arm64"),
      .run (imageBuild (dockerDir tempDir version) version "amd64"), .run (imageTag version version),
      .run (imageTag version "latest")]
    else []) ++
  if opts.skipForge then [] else [.run (forgePublish root version)]

/-- A call that publishes something publishes what it should. -/
def Allowed (opts : ReleaseOptions) (root version : String) (cleared : Cleared) (act : Act) : Prop :=
  Publishes act → ∃ tempDir, act ∈ publishActs opts root version cleared tempDir

variable {cleared : Cleared}

theorem allowed_of_mem {act : Act} (tempDir : String) (h : act ∈ publishActs opts root version cleared tempDir) :
    Allowed opts root version cleared act :=
  fun _ => ⟨tempDir, h⟩

theorem allowed_of_not {act : Act} (h : ¬ Publishes act) : Allowed opts root version cleared act :=
  fun hpublishes => absurd hpublishes h

theorem calls_publishGithubRelease (hskip : opts.skipGithub = false) :
    (publishGithubRelease opts ("v" ++ version) version cleared.notes).Calls
      (Allowed opts root version cleared) := by
  have hmem : ∀ act ∈ [Act.write (notesPath opts) cleared.notes, .run (ghView opts ("v" ++ version)),
      .run (ghUpload opts ("v" ++ version)), .run (ghEdit opts ("v" ++ version)),
      .run (ghCreate opts ("v" ++ version) version)], Allowed opts root version cleared act := by
    intro act hact
    refine allowed_of_mem "" ?_
    simp only [publishActs, hskip, List.mem_append]
    exact Or.inl (Or.inl (Or.inl (Or.inl hact)))
  refine (calls_perform (hmem _ (by simp))).andThen fun _ => (calls_perform (hmem _ (by simp))).bind fun viewed => ?_
  split
  · exact (calls_runChecked (hmem _ (by simp))).andThen fun _ => calls_runChecked (hmem _ (by simp))
  · exact calls_runChecked (hmem _ (by simp))

theorem calls_updateHomebrew (hskip : opts.skipHomebrew = false) :
    (updateHomebrew opts version cleared.digests).Calls (Allowed opts root version cleared) := by
  unfold updateHomebrew
  split
  · trivial
  · next tap htap =>
      have hmem : ∀ act ∈ [Act.write (join tap "Formula/aivcs.rb") (tapFormula version cleared.digests),
          .run (gitAdd tap), .run (gitDiff tap), .run (gitCommit tap version), .run (gitPush tap),
          .run brewReinstall, .run brewTest], Allowed opts root version cleared act := by
        intro act hact
        refine allowed_of_mem "" ?_
        simp only [publishActs, hskip, htap, List.mem_append]
        exact Or.inl (Or.inl (Or.inl (Or.inr (by simpa using hact))))
      -- The looks at the directory are allowed to anyone, the rest is on the list.
      refine (calls_perform (allowed_of_not id)).bind fun there => ?_
      split
      · refine (calls_perform (allowed_of_not id)).andThen fun _ =>
          (calls_perform (hmem _ (by simp))).andThen fun _ =>
          (calls_runChecked (hmem _ (by simp))).andThen fun _ =>
          (calls_perform (hmem _ (by simp))).andThen fun staged => Proc.Calls.andThen ?_ fun _ => ?_
        · split
          · trivial
          · exact (calls_runChecked (hmem _ (by simp))).andThen fun _ => calls_runChecked (hmem _ (by simp))
        · split
          · exact (calls_runChecked (hmem _ (by simp))).andThen fun _ => calls_runChecked (hmem _ (by simp))
          · trivial
      · trivial

theorem calls_dockerImages (hrelease : (opts.dockerRelease && !opts.skipLinux) = true) :
    (dockerImages opts.buildDir version).Calls (Allowed opts root version cleared) := by
  refine (calls_perform (allowed_of_not id)).bind fun tempDir => ?_
  have hmem : ∀ act ∈ [Act.write (join (dockerDir tempDir version) "Dockerfile") dockerfile,
      .run (imageBuild (dockerDir tempDir version) version "arm64"),
      .run (imageBuild (dockerDir tempDir version) version "amd64"), .run (imageTag version version),
      .run (imageTag version "latest")], Allowed opts root version cleared act := by
    intro act hact
    refine allowed_of_mem tempDir ?_
    simp only [publishActs, hrelease, List.mem_append]
    exact Or.inl (Or.inr hact)
  exact (calls_perform (allowed_of_not id)).andThen fun _ => (calls_perform (hmem _ (by simp))).andThen fun _ =>
    (calls_perform (allowed_of_not id)).andThen fun _ => (calls_perform (allowed_of_not id)).andThen fun _ =>
    (calls_runChecked (hmem _ (by simp))).andThen fun _ => (calls_runChecked (hmem _ (by simp))).andThen fun _ =>
    (calls_runChecked (hmem _ (by simp))).andThen fun _ => calls_runChecked (hmem _ (by simp))

theorem calls_publish (opts : ReleaseOptions) (root version : String) (cleared : Cleared) :
    (publish opts root version cleared).Calls (Allowed opts root version cleared) := by
  refine Proc.Calls.andThen ?_ fun _ => Proc.Calls.andThen ?_ fun _ => Proc.Calls.andThen ?_ fun _ =>
    Proc.Calls.andThen ?_ fun _ => ?_
  · split
    · trivial
    · next hskip => exact calls_publishGithubRelease (Bool.eq_false_of_not_eq_true hskip)
  · split
    · trivial
    · next hskip => exact calls_updateHomebrew (Bool.eq_false_of_not_eq_true hskip)
  · refine (calls_perform (allowed_of_not id)).andThen fun _ => calls_perform (allowed_of_mem "" ?_)
    simp [publishActs]
  · split
    · next hrelease => exact calls_dockerImages hrelease
    · trivial
  · split
    · trivial
    · next hskip =>
        have hlooks : ensureForgeConfigured.Calls (Allowed opts root version cleared) :=
          looks_ensureForgeConfigured.mono fun _ h => allowed_of_not h.not_publishes
        refine Proc.Calls.andThen hlooks fun _ => calls_runChecked (allowed_of_mem "" ?_)
        simp [publishActs, hskip]

/-! ### A release that skips nothing -/

def demoCargo : String :=
  "[workspace.package]\nversion = \"1.0.0\"\n"

def demoEnv : Env Nat where
  parseToml text :=
    if text = demoCargo then .ok (.obj [("workspace", .obj [("package", .obj [("version", .str "1.0.0")])])])
    else .error "expected a table"
  -- the files that are read are empty
  sha256Hex _ := "e3b0c44298fc1c149afbf4c8996fb92427ae41e4649b934ca495991b7852b855"

def demoOpts : ReleaseOptions where
  version := "v1.0.0"
  repoRoot := "/r"
  buildDir := "/b"
  githubRepo := "aivcs-io/aivcs"
  homebrewTapDir := some "/tap"
  verifyOnly := false
  skipLinux := false
  skipGithub := false
  skipHomebrew := false
  skipForge := false
  dockerRelease := true
  homebrewTest := true

/-- All goes well, but for directories, which are made as they are said to be.  There is no such release yet,
and there is something to commit. -/
def demoAnswer (made : Except String Unit) : (act : Act) → Unit → act.Ans × Unit
  | .canonicalize path, s => (some path, s)
  | .envVar _, s => (none, s)
  | .tempDir, s => ("/tmp", s)
  | .isDir _, s => (true, s)
  | .isFile _, s => (true, s)
  | .readText path, s =>
      (if path = "/r/Cargo.toml" then .ok demoCargo
        else if path = "/r/CHANGELOG.md" then .ok "## [1.0.0]\n- First release.\n"
        else .error "no such file", s)
  | .readBytes _, s => (.ok [], s)
  | .createDirAll _, s => (made, s)
  | .write _ _, s => (.ok (), s)
  | .createFile _, s => (.ok (), s)
  | .append _ _, s => (.ok (), s)
  | .copy _ _, s => (.ok (), s)
  | .setExecutable _, s => (.ok (), s)
  | .run cmd, s =>
      (.ok ⟨cmd.args.take 2 ∉ [["release", "view"], ["diff", "--cached"]], "exit status",
        utf8 "aivcs 1.0.0\n", []⟩, s)

def demoTrace (made : Except String Unit) : Trace :=
  Proc.traceOf (demoAnswer made) (runRelease demoEnv demoOpts) ()

/-- `aivcs publish` is run. -/
def isForgePublish : (act : Act) × act.Ans → Bool
  | ⟨.run cmd, _⟩ => cmd.program = "/r/target/release/aivcs" ∧ cmd.args.head? = some "publish"
  | _ => false

def isRefusal : (act : Act) × act.Ans → Bool
  | ⟨.createDirAll _, .error _⟩ => true
  | _ => false

theorem exists_of_any {f : (act : Act) × act.Ans → Bool} (h : tr.any f = true) :
    ∃ pre act r post, tr = pre ++ ⟨act, r⟩ :: post ∧ f ⟨act, r⟩ = true := by
  obtain ⟨⟨act, r⟩, hmem, hf⟩ := List.any_eq_true.1 h
  obtain ⟨pre, post, rfl⟩ := List.append_of_mem hmem
  exact ⟨pre, act, r, post, rfl, hf⟩

theorem demoTrace_publishes : (demoTrace (.ok ())).any isForgePublish = true := by
  decide +kernel

theorem demoTrace_refused : (demoTrace (.error "read-only")).any isRefusal = true := by
  decide +kernel

theorem demo_isOk : (Proc.run (demoAnswer (.ok ())) (runRelease demoEnv demoOpts) ()).1.isOk = true := by
  decide +kernel

/-! ## The release as a whole -/

/-- What publishes comes after a step that does not, and that step has let through. -/
theorem passed_of_publishes {β : Type} {step : Step α} {f : α → Step β} (hquiet : Quiet step)
    {pre post : Trace} {act : Act} {r : act.Ans} {b : Except String β}
    (h : Proc.Traces (step.andThen f) (pre ++ ⟨act, r⟩ :: post) b) (hpub : Publishes act) :
    ∃ passed a rest, pre = passed ++ rest ∧ Proc.Traces step passed (.ok a) ∧
      Proc.Traces (f a) (rest ++ ⟨act, r⟩ :: post) b := by
  rcases Proc.Traces.of_andThen h with ⟨e, -, hstep⟩ | ⟨tr₁, a, tr₂, heq, hstep, hrest⟩
  · exact absurd hpub (hquiet.of_mem_trace hstep (List.mem_append_right _ List.mem_cons_self))
  · rcases List.append_eq_append_iff.1 heq.symm with ⟨rest, rfl, rfl⟩ | ⟨rest, rfl, hcons⟩
    · exact ⟨tr₁, a, rest, rfl, hstep, hrest⟩
    · -- the step itself would have to publish
      cases rest with
      | nil =>
          rw [List.nil_append] at hcons
          rw [← hcons] at hrest
          exact ⟨pre, a, [], (List.append_nil pre).symm, by simpa using hstep, hrest⟩
      | cons ev rest =>
          rw [List.cons_append, List.cons.injEq] at hcons
          obtain ⟨rfl, -⟩ := hcons
          exact absurd hpub (hquiet.of_mem_trace hstep (List.mem_append_right _ List.mem_cons_self))

/-- Whatever the world answers: before anything is written or published the repository was found locked to
the version, every binary was built, printed the version and had none of the forbidden texts in it, and the
checksums and notes were made from what was read; and what is written or published is one of the known acts
for that version, those checksums and those notes. -/
theorem published_checked (env : Env N) (opts : ReleaseOptions) {tr pre post : Trace} {outcome : Except String Unit}
    (h : Proc.Traces (runRelease env opts) tr outcome) {act : Act} {r : act.Ans}
    (heq : tr = pre ++ ⟨act, r⟩ :: post) (hpub : Publishes act) :
    opts.verifyOnly = false ∧
      ∃ (version : String) (canonical : Option String) (cleared : Cleared) (tempDir : String)
        (locked built checked rest : Trace),
        pre = ⟨.canonicalize opts.repoRoot, canonical⟩ :: (locked ++ (built ++ (checked ++ rest))) ∧
        normalizeSemver opts.version = .ok version ∧
        Locked env (canonical.getD opts.repoRoot) version locked ∧
        Built opts (canonical.getD opts.repoRoot) built ∧
        Checked env opts (canonical.getD opts.repoRoot) version cleared checked ∧
        act ∈ publishActs opts (canonical.getD opts.repoRoot) version cleared tempDir := by
  subst heq
  obtain ⟨_, version, rest₁, rfl, hlift, h₁⟩ := passed_of_publishes calls_lift h hpub
  obtain ⟨rfl, hversion⟩ := ok_of_lift hlift
  -- the root is looked up first
  obtain ⟨canonical, tail, heq, h₂⟩ := Proc.Traces.of_call h₁
  cases rest₁ with
  | nil =>
      rw [List.nil_append, List.cons.injEq] at heq
      cases heq.1
      exact hpub.elim
  | cons ev rest₁ =>
      rw [List.cons_append, List.cons.injEq] at heq
      obtain ⟨rfl, rfl⟩ := heq
      -- every gate but the last part is quiet, so it has let through
      obtain ⟨locked, _, rest₂, rfl, hlocked, h₃⟩ :=
        passed_of_publishes (quiet_verifySemverLockstep env (canonical.getD opts.repoRoot) version) h₂ hpub
      cases honly : opts.verifyOnly with
      | true =>
          rw [if_pos honly] at h₃
          exact absurd (Proc.Traces.of_ret h₃).1 (by simp)
      | false =>
          rw [if_neg (by simp [honly])] at h₃
          obtain ⟨built, _, rest₃, rfl, hbuilt, h₄⟩ :=
            passed_of_publishes (quiet_buildBinaries opts _) h₃ hpub
          obtain ⟨checked, cleared, rest₄, rfl, hchecked, h₅⟩ :=
            passed_of_publishes (quiet_checkBinaries env opts _ version) h₄ hpub
          obtain ⟨tempDir, hmem⟩ := (calls_publish opts _ version cleared).of_mem_trace h₅
            (List.mem_append_right _ List.mem_cons_self) hpub
          exact ⟨rfl, version, canonical, cleared, tempDir, locked, built, checked, rest₄, by simp, hversion,
            locked_of_ok hlocked, built_of_ok hbuilt, checked_of_ok hchecked, hmem⟩

theorem normalizeSemver_demo : normalizeSemver demoOpts.version = .ok "1.0.0" := by
  rfl

/-- The repository itself is published last, and everything is as it should be by then. -/
theorem published_checked_demo : ∃ (pre post : Trace) (cmd : Command) (r : Except String Output),
    demoTrace (.ok ()) = pre ++ ⟨.run cmd, r⟩ :: post ∧ cmd.program = "/r/target/release/aivcs" ∧
      ∃ (canonical : Option String) (cleared : Cleared) (tempDir : String) (locked built checked rest : Trace),
        pre = ⟨.canonicalize "/r", canonical⟩ :: (locked ++ (built ++ (checked ++ rest))) ∧
        Locked demoEnv (canonical.getD "/r") "1.0.0" locked ∧ Built demoOpts (canonical.getD "/r") built ∧
        Checked demoEnv demoOpts (canonical.getD "/r") "1.0.0" cleared checked ∧
        .run cmd ∈ publishActs demoOpts (canonical.getD "/r") "1.0.0" cleared tempDir := by
  obtain ⟨pre, act, r, post, htrace, hforge⟩ := exists_of_any demoTrace_publishes
  cases act with
  | run cmd =>
      obtain ⟨hprogram, hargs⟩ : cmd.program = "/r/target/release/aivcs" ∧ cmd.args.head? = some "publish" := by
        simpa [isForgePublish] using hforge
      obtain ⟨-, version, canonical, cleared, tempDir, locked, built, checked, rest, hpre, hversion, hlocked,
        hbuilt, hchecked, hmem⟩ := published_checked demoEnv demoOpts
          (Proc.traces_traceOf (demoAnswer (.ok ())) _ ()) htrace (Or.inr (Or.inl hargs))
      obtain rfl : version = "1.0.0" := Except.ok.inj (hversion.symm.trans normalizeSemver_demo)
      exact ⟨pre, post, cmd, r, htrace, hprogram, canonical, cleared, tempDir, locked, built, checked, rest, hpre,
        hlocked, hbuilt, hchecked, hmem⟩
  | _ => cases hforge

/-! ### A release that succeeds -/

/-- The formula is in the tap, and pushed unless nothing has changed. -/
structure TapPushed (tap version : String) (digests : List (String × String)) (tr : Trace) : Prop where
  formula : ⟨.write (join tap "Formula/aivcs.rb") (tapFormula version digests), .ok ()⟩ ∈ tr
  added : Ran (gitAdd tap) tr
  pushed : Ran (gitDiff tap) tr ∨ Ran (gitCommit tap version) tr ∧ Ran (gitPush tap) tr

theorem TapPushed.mono {tap : String} {digests : List (String × String)} {tr' : Trace}
    (h : TapPushed tap version digests tr) (hsub : ∀ ev ∈ tr, ev ∈ tr') :
    TapPushed tap version digests tr' where
  formula := hsub _ h.formula
  added := h.added.mono hsub
  pushed := h.pushed.imp (·.mono hsub) fun h => ⟨h.1.mono hsub, h.2.mono hsub⟩

/-- Everything that was not to be skipped is published. -/
structure Released (opts : ReleaseOptions) (root version : String) (cleared : Cleared) (tr : Trace) : Prop where
  github : opts.skipGithub = false → ⟨.write (notesPath opts) cleared.notes, .ok ()⟩ ∈ tr ∧
    (Ran (ghCreate opts ("v" ++ version) version) tr ∨
      Ran (ghUpload opts ("v" ++ version)) tr ∧ Ran (ghEdit opts ("v" ++ version)) tr)
  /-- The tap is left out where its directory is not there. -/
  homebrew : opts.skipHomebrew = false → ∀ tap, opts.homebrewTapDir = some tap →
    ⟨.isDir tap, false⟩ ∈ tr ∨ TapPushed tap version cleared.digests tr
  formula : ⟨.write (join root "Formula/aivcs.rb") (inRepoFormula version), .ok ()⟩ ∈ tr
  images : (opts.dockerRelease && !opts.skipLinux) = true →
    Ran (imageTag version version) tr ∧ Ran (imageTag version "latest") tr
  forge : opts.skipForge = false → Ran (forgePublish root version) tr

theorem ok_of_publishGithubRelease {tag notes : String} {u : Unit}
    (h : Proc.Traces (publishGithubRelease opts tag version notes) tr (.ok u)) :
    ⟨.write (notesPath opts) notes, .ok ()⟩ ∈ tr ∧
      (Ran (ghCreate opts tag version) tr ∨ Ran (ghUpload opts tag) tr ∧ Ran (ghEdit opts tag) tr) := by
  obtain ⟨_, _, _, rfl, hwrite, hrest₁⟩ := Proc.Traces.of_andThen_ok h
  obtain rfl := Proc.Traces.of_perform hwrite
  obtain ⟨_, viewed, _, rfl, -, hrest₂⟩ := Proc.Traces.of_bind hrest₁
  refine ⟨by simp, ?_⟩
  by_cases hexists : succeeded viewed = true
  · rw [if_pos hexists] at hrest₂
    obtain ⟨_, _, _, rfl, hupload, hedit⟩ := Proc.Traces.of_andThen_ok hrest₂
    refine Or.inr ⟨(ran_of_ok hupload).mono fun _ hev => ?_, (ran_of_ok hedit).mono fun _ hev => ?_⟩
    · simp [hev]
    · simp [hev]
  · rw [if_neg hexists] at hrest₂
    exact Or.inl ((ran_of_ok hrest₂).mono fun _ hev => by simp [hev])

theorem ok_of_pushTap {tap : String} {u : Unit} (h : Proc.Traces (pushTap opts tap version) tr (.ok u)) :
    Ran (gitAdd tap) tr ∧ (Ran (gitDiff tap) tr ∨ Ran (gitCommit tap version) tr ∧ Ran (gitPush tap) tr) := by
  obtain ⟨_, _, _, rfl, hadd, hrest₁⟩ := Proc.Traces.of_andThen_ok h
  obtain ⟨_, staged, _, rfl, hdiff, hrest₂⟩ := Proc.Traces.of_andThen_ok hrest₁
  obtain rfl := Proc.Traces.of_perform hdiff
  obtain ⟨_, _, _, rfl, hcommit, -⟩ := Proc.Traces.of_andThen_ok hrest₂
  refine ⟨(ran_of_ok hadd).mono fun _ hev => by simp [hev], ?_⟩
  by_cases hstaged : staged.success = true
  · exact Or.inl ⟨staged, hstaged, by simp⟩
  · rw [if_neg hstaged] at hcommit
    obtain ⟨_, _, _, rfl, hcommitted, hpushed⟩ := Proc.Traces.of_andThen_ok hcommit
    refine Or.inr ⟨(ran_of_ok hcommitted).mono fun _ hev => ?_, (ran_of_ok hpushed).mono fun _ hev => ?_⟩
    · simp [hev]
    · simp [hev]

theorem ok_of_updateHomebrew {tap : String} (htap : opts.homebrewTapDir = some tap)
    {digests : List (String × String)} {u : Unit}
    (h : Proc.Traces (updateHomebrew opts version digests) tr (.ok u)) :
    ⟨.isDir tap, false⟩ ∈ tr ∨ TapPushed tap version digests tr := by
  unfold updateHomebrew at h
  simp only [htap] at h
  obtain ⟨_, there, _, rfl, hdir, hrest₁⟩ := Proc.Traces.of_bind h
  obtain rfl := Proc.Traces.of_perform hdir
  cases there with
  | false => exact Or.inl (by simp)
  | true =>
      obtain ⟨_, _, _, rfl, -, hrest₂⟩ := Proc.Traces.of_andThen_ok hrest₁
      obtain ⟨_, _, _, rfl, hwrite, hpush⟩ := Proc.Traces.of_andThen_ok hrest₂
      obtain rfl := Proc.Traces.of_perform hwrite
      obtain ⟨hadd, hstaged⟩ := ok_of_pushTap hpush
      refine Or.inr ⟨by simp, hadd.mono ?_, hstaged.imp (·.mono ?_) fun h => ⟨h.1.mono ?_, h.2.mono ?_⟩⟩ <;>
        exact fun _ hev => by simp [hev]

theorem ok_of_dockerImages {buildDir : String} {u : Unit}
    (h : Proc.Traces (dockerImages buildDir version) tr (.ok u)) :
    Ran (imageTag version version) tr ∧ Ran (imageTag version "latest") tr := by
  obtain ⟨_, tempDir, _, rfl, -, hrest₁⟩ := Proc.Traces.of_bind h
  obtain ⟨_, _, _, rfl, -, hrest₂⟩ := Proc.Traces.of_andThen_ok hrest₁
  obtain ⟨_, _, _, rfl, -, hrest₃⟩ := Proc.Traces.of_andThen_ok hrest₂
  obtain ⟨_, _, _, rfl, -, hrest₄⟩ := Proc.Traces.of_andThen_ok hrest₃
  obtain ⟨_, _, _, rfl, -, hrest₅⟩ := Proc.Traces.of_andThen_ok hrest₄
  obtain ⟨_, _, _, rfl, -, hrest₆⟩ := Proc.Traces.of_andThen_ok hrest₅
  obtain ⟨_, _, _, rfl, -, hrest₇⟩ := Proc.Traces.of_andThen_ok hrest₆
  obtain ⟨_, _, _, rfl, htag, hlatest⟩ := Proc.Traces.of_andThen_ok hrest₇
  refine ⟨(ran_of_ok htag).mono fun _ hev => ?_, (ran_of_ok hlatest).mono fun _ hev => ?_⟩
  · simp [hev]
  · simp [hev]

theorem released_of_ok {cleared : Cleared} {u : Unit}
    (h : Proc.Traces (publish opts root version cleared) tr (.ok u)) : Released opts root version cleared tr := by
  obtain ⟨_, _, _, rfl, hgithub, hrest₁⟩ := Proc.Traces.of_andThen_ok h
  obtain ⟨_, _, _, rfl, hhomebrew, hrest₂⟩ := Proc.Traces.of_andThen_ok hrest₁
  obtain ⟨_, _, _, rfl, hformula, hrest₃⟩ := Proc.Traces.of_andThen_ok hrest₂
  obtain ⟨_, _, _, rfl, himages, hforge⟩ := Proc.Traces.of_andThen_ok hrest₃
  constructor
  · intro hskip
    rw [if_neg (by simp [hskip])] at hgithub
    obtain ⟨hnotes, hpublished⟩ := ok_of_publishGithubRelease hgithub
    refine ⟨by simp [hnotes], hpublished.imp (fun h => h.mono ?_) fun h => ⟨h.1.mono ?_, h.2.mono ?_⟩⟩ <;>
      exact fun _ hev => List.mem_append_left _ hev
  · intro hskip tap htap
    rw [if_neg (by simp [hskip])] at hhomebrew
    rcases ok_of_updateHomebrew htap hhomebrew with hgone | hpushed
    · exact Or.inl (by simp [hgone])
    · exact Or.inr (hpushed.mono fun _ hev => by simp [hev])
  · -- it is never skipped
    obtain ⟨_, _, _, rfl, -, hwrite⟩ := Proc.Traces.of_andThen_ok hformula
    obtain rfl := Proc.Traces.of_perform hwrite
    simp
  · intro hrelease
    rw [if_pos hrelease] at himages
    obtain ⟨hversion, hlatest⟩ := ok_of_dockerImages himages
    exact ⟨hversion.mono fun _ hev => by simp [hev], hlatest.mono fun _ hev => by simp [hev]⟩
  · intro hskip
    rw [if_neg (by simp [hskip])] at hforge
    obtain ⟨_, _, _, rfl, -, hpublish⟩ := Proc.Traces.of_andThen_ok hforge
    exact (ran_of_ok hpublish).mono fun _ hev => by simp [hev]

/-- A release that reports success, and was not only to verify, has published everything that it was not told
to skip, for the version, the checksums and the notes its gates have let through. -/
theorem released (env : Env N) (opts : ReleaseOptions) {tr : Trace}
    (h : Proc.Traces (runRelease env opts) tr (.ok ())) (honly : opts.verifyOnly = false) :
    ∃ (version : String) (canonical : Option String) (cleared : Cleared)
        (before checked published : Trace),
      tr = before ++ (checked ++ published) ∧ normalizeSemver opts.version = .ok version ∧
        Checked env opts (canonical.getD opts.repoRoot) version cleared checked ∧
        Released opts (canonical.getD opts.repoRoot) version cleared published := by
  obtain ⟨_, version, _, rfl, hlift, hrest₁⟩ := Proc.Traces.of_andThen_ok h
  obtain ⟨rfl, hversion⟩ := ok_of_lift hlift
  -- the look at the root, the lock and the builds come before the checks
  obtain ⟨looked, canonical, _, rfl, -, hrest₂⟩ := Proc.Traces.of_bind hrest₁
  obtain ⟨locked, _, _, rfl, -, hrest₃⟩ := Proc.Traces.of_andThen_ok hrest₂
  rw [if_neg (by simp [honly])] at hrest₃
  obtain ⟨built, _, _, rfl, -, hrest₄⟩ := Proc.Traces.of_andThen_ok hrest₃
  obtain ⟨checked, cleared, published, rfl, hchecked, hpublished⟩ := Proc.Traces.of_andThen_ok hrest₄
  exact ⟨version, canonical, cleared, looked ++ (locked ++ built), checked, published, by simp, hversion,
    checked_of_ok hchecked, released_of_ok hpublished⟩

theorem released_demo : ∃ (canonical : Option String) (cleared : Cleared) (before checked published : Trace),
    demoTrace (.ok ()) = before ++ (checked ++ published) ∧
      Checked demoEnv demoOpts (canonical.getD "/r") "1.0.0" cleared checked ∧
      Released demoOpts (canonical.getD "/r") "1.0.0" cleared published := by
  have htraces := Proc.traces_traceOf (demoAnswer (.ok ())) (runRelease demoEnv demoOpts) ()
  have hok := demo_isOk
  cases hrun : (Proc.run (demoAnswer (.ok ())) (runRelease demoEnv demoOpts) ()).1 with
  | error e =>
      rw [hrun] at hok
      cases hok
  | ok u =>
      rw [hrun] at htraces
      obtain ⟨version, canonical, cleared, before, checked, published, htrace, hversion, hchecked, hreleased⟩ :=
        released demoEnv demoOpts htraces rfl
      obtain rfl : version = "1.0.0" := Except.ok.inj (hversion.symm.trans normalizeSemver_demo)
      exact ⟨canonical, cleared, before, checked, published, htrace, hchecked, hreleased⟩

/-! ### A release that fails -/

/-- The failures that are tolerated: there is no such release yet, or there is something to commit. -/
def Tolerated (cmd : Command) : Prop :=
  cmd.args.take 2 = ["release", "view"] ∨ cmd.args.take 2 = ["diff", "--cached"]

/-- The step has failed.  Where text is read, or the environment looked at, the code has a default for it or
checks it itself. -/
def Fails : (act : Act) → act.Ans → Prop
  | .readBytes _, r => r.isOk = false
  | .createDirAll _, r => r.isOk = false
  | .write _ _, r => r.isOk = false
  | .createFile _, r => r.isOk = false
  | .append _ _, r => r.isOk = false
  | .copy _ _, r => r.isOk = false
  | .setExecutable _, r => r.isOk = false
  | .run cmd, r => ¬ Tolerated cmd ∧ succeeded r = false
  | _, _ => False

theorem Looks.not_fails {act : Act} (h : Looks act) (r : act.Ans) : ¬ Fails act r := by
  cases act with
  | envVar name => exact id
  | isFile path => exact id
  | readText path => exact id
  | _ => exact h.elim

/-- A step that ends with what fails in it. -/
abbrev Stops (step : Step α) : Prop :=
  step.EndsOn Fails fun result => ∃ e, result = .error e

theorem Stops.andThen {β : Type} {step : Step α} {f : α → Step β} (h : Stops step) (hf : ∀ a, Stops (f a)) :
    Stops (step.andThen f) :=
  Proc.EndsOn.andThen h hf fun e => ⟨e, rfl⟩

theorem stops_withContext {context : String} {step : Step α} (h : Stops step) :
    Stops (withContext context step) := by
  refine Proc.EndsOn.bind h (fun _ => trivial) ?_
  rintro _ ⟨e, rfl⟩
  exact ⟨context, rfl⟩

/-- A part that cannot fail, before a step. -/
theorem stops_bind {β : Type} {p : Program β} {f : β → Step α} (h : p.Calls fun act => ∀ r, ¬ Fails act r)
    (hf : ∀ b, Stops (f b)) : Stops (p.bind f) := by
  have hp : p.EndsOn Fails fun _ => False := h.endsOn fun _ r hnot => hnot r
  exact hp.bind hf fun _ hfalse => hfalse.elim

/-- A call ends a step where an error comes of every answer that counts as a failure. -/
theorem stops_perform (act : Act) (f : act.Ans → Except String α) (h : ∀ r, Fails act r → (f r).isOk = false) :
    Stops ((perform act).bind fun r => .ret (f r)) := by
  intro r
  refine ⟨fun hfails => ?_, trivial⟩
  have herror := h r hfails
  show ∃ e, f r = .error e
  cases hresult : f r with
  | error e => exact ⟨e, rfl⟩
  | ok a =>
      rw [hresult] at herror
      cases herror

theorem stops_runChecked (cmd : Command) (label : String) : Stops (runChecked cmd label) := by
  intro answer
  cases answer with
  | error e => exact ⟨fun _ => ⟨_, rfl⟩, trivial⟩
  | ok out =>
      show (¬ Tolerated cmd ∧ out.success = false → Proc.Ended _ (if out.success then _ else _)) ∧
        Stops (if out.success then _ else _)
      cases out.success with
      | false => exact ⟨fun _ => ⟨_, rfl⟩, trivial⟩
      | true => exact ⟨fun h => absurd h.2 (by simp), trivial⟩

theorem stops_lift (result : Except String α) : Stops (lift result) :=
  trivial

theorem stops_verifySemverLockstep (env : Env N) (root version : String) :
    Stops (verifySemverLockstep env root version) := by
  have hread : ∀ path, Stops (perform (.readText path)) := fun path =>
    stops_perform (.readText path) id fun _ => False.elim
  refine (stops_withContext (hread _)).andThen fun cargo => (stops_lift _).andThen fun current => ?_
  split
  · trivial
  · refine (stops_withContext (hread _)).andThen fun changelog => ?_
    split
    · exact stops_bind (calls_perform fun _ => id) fun _ => stops_bind (calls_perform fun _ => id) fun _ => trivial
    · trivial

theorem stops_dockerLinuxBuild (root buildDir dir : String) (platform : Option String) (name : String) :
    Stops (dockerLinuxBuild root buildDir dir platform name) :=
  stops_bind (looks_registryAivcsToken.mono fun _ => Looks.not_fails) fun _ =>
    stops_bind (looks_cargoConfig.mono fun _ => Looks.not_fails) fun _ =>
    (stops_runChecked _ _).andThen fun _ => stops_perform (.setExecutable _) id fun _ => id

theorem stops_buildBinaries (opts : ReleaseOptions) (root : String) : Stops (buildBinaries opts root) := by
  refine (stops_perform (.createDirAll _) id fun _ => id).andThen fun _ => (stops_runChecked _ _).andThen fun _ =>
    (stops_runChecked _ _).andThen fun _ =>
    (stops_withContext (stops_perform (.copy _ _) id fun _ => id)).andThen fun _ =>
    (stops_perform (.setExecutable _) id fun _ => id).andThen fun _ => ?_
  split
  · trivial
  · exact (stops_dockerLinuxBuild _ _ _ _ _).andThen fun _ => stops_dockerLinuxBuild _ _ _ _ _

theorem stops_checkVersion (cmd : Command) (context label expected : String) (failed : Output → String) :
    Stops (checkVersion cmd context label expected failed) := by
  intro answer
  cases answer with
  | error e => exact ⟨fun _ => ⟨context, rfl⟩, trivial⟩
  | ok out =>
      show (¬ Tolerated cmd ∧ out.success = false → Proc.Ended _ (if out.success then _ else _)) ∧
        Stops (if out.success then _ else _)
      cases out.success with
      | false => exact ⟨fun _ => ⟨_, rfl⟩, trivial⟩
      | true => exact ⟨fun h => absurd h.2 (by simp), stops_lift _⟩

theorem stops_auditAll (buildDir : String) (names : List String) : Stops (auditAll buildDir names) := by
  induction names with
  | nil => trivial
  | cons name names ih =>
      have hread : Stops (perform (.readBytes (join buildDir name))) :=
        stops_perform (.readBytes _) id fun _ => id
      exact ((stops_withContext hread).andThen fun _ => stops_lift _).andThen fun _ => ih

theorem stops_appendSums (env : Env N) (dir : String) (names : List String) : Stops (appendSums env dir names) := by
  induction names with
  | nil => trivial
  | cons name names ih =>
      have hread : Stops (perform (.readBytes (join dir name))) :=
        stops_perform (.readBytes _) id fun _ => id
      exact ((stops_withContext hread).andThen fun _ => stops_lift _).andThen fun _ =>
        (stops_perform (.append _ _) id fun _ => id).andThen fun _ => ih.andThen fun _ => stops_lift _

theorem stops_checkBinaries (env : Env N) (opts : ReleaseOptions) (root version : String) :
    Stops (checkBinaries env opts root version) := by
  have hversions : Stops (assertVersions opts (expectedCliVersionLine version)) := by
    refine Stops.andThen (stops_checkVersion _ _ _ _ _) fun _ => ?_
    split
    · trivial
    · exact Stops.andThen (stops_checkVersion _ _ _ _ _) fun _ => stops_checkVersion _ _ _ _ _
  have hsums : Stops (writeSha256sums env opts.buildDir opts.names) :=
    (stops_withContext (stops_perform (.createFile _) id fun _ => id)).andThen fun _ => stops_appendSums _ _ _
  have hnotes : Stops (readNotes root version) :=
    (stops_perform (.readText _) id fun _ => False.elim).andThen fun _ => stops_lift _
  exact hversions.andThen fun _ => (stops_auditAll _ _).andThen fun _ => hsums.andThen fun _ =>
    hnotes.andThen fun _ => stops_lift _

theorem stops_publishGithubRelease (opts : ReleaseOptions) (tag version notes : String) :
    Stops (publishGithubRelease opts tag version notes) := by
  -- the look whether there is a release may fail
  have hview : ∀ r, ¬ Fails (.run (ghView opts tag)) r := fun _ h => h.1 (Or.inl rfl)
  refine (stops_perform (.write _ _) id fun _ => id).andThen fun _ =>
    stops_bind (calls_perform hview) fun viewed => ?_
  split
  · exact (stops_runChecked _ _).andThen fun _ => stops_runChecked _ _
  · exact stops_runChecked _ _

theorem stops_pushTap (opts : ReleaseOptions) (tap version : String) : Stops (pushTap opts tap version) := by
  -- and so may the look whether anything is staged
  have hdiff : Stops (perform (.run (gitDiff tap))) := stops_perform (.run (gitDiff tap)) id fun _ h =>
    absurd (Or.inr rfl) h.1
  refine (stops_runChecked _ _).andThen fun _ => hdiff.andThen fun staged => Stops.andThen ?_ fun _ => ?_
  · split
    · trivial
    · exact (stops_runChecked _ _).andThen fun _ => stops_runChecked _ _
  · split
    · exact (stops_runChecked _ _).andThen fun _ => stops_runChecked _ _
    · trivial

theorem stops_updateHomebrew (opts : ReleaseOptions) (version : String) (digests : List (String × String)) :
    Stops (updateHomebrew opts version digests) := by
  unfold updateHomebrew
  split
  · trivial
  · refine stops_bind (calls_perform fun _ => id) fun there => ?_
    split
    · exact (stops_perform (.createDirAll _) id fun _ => id).andThen fun _ =>
        (stops_perform (.write _ _) id fun _ => id).andThen fun _ => stops_pushTap _ _ _
    · trivial

theorem stops_dockerImages (buildDir version : String) : Stops (dockerImages buildDir version) :=
  stops_bind (calls_perform fun _ => id) fun _ => (stops_perform (.createDirAll _) id fun _ => id).andThen fun _ =>
    (stops_perform (.write _ _) id fun _ => id).andThen fun _ =>
    (stops_perform (.copy _ _) id fun _ => id).andThen fun _ =>
    (stops_perform (.copy _ _) id fun _ => id).andThen fun _ =>
    (stops_runChecked _ _).andThen fun _ => (stops_runChecked _ _).andThen fun _ =>
    (stops_runChecked _ _).andThen fun _ => stops_runChecked _ _

theorem stops_ensureForgeConfigured : Stops ensureForgeConfigured :=
  looks_ensureForgeConfigured.endsOn fun _ r h => h.not_fails r

theorem stops_publish (opts : ReleaseOptions) (root version : String) (cleared : Cleared) :
    Stops (publish opts root version cleared) := by
  refine Stops.andThen ?_ fun _ => Stops.andThen ?_ fun _ => Stops.andThen ?_ fun _ => Stops.andThen ?_ fun _ => ?_
  · split
    · trivial
    · exact stops_publishGithubRelease _ _ _ _
  · split
    · trivial
    · exact stops_updateHomebrew _ _ _
  · exact (stops_perform (.createDirAll _) id fun _ => id).andThen fun _ => stops_perform (.write _ _) id fun _ => id
  · split
    · exact stops_dockerImages _ _
    · trivial
  · split
    · trivial
    · exact stops_ensureForgeConfigured.andThen fun _ => stops_runChecked _ _

theorem stops_of_eq_runRelease {release : Step Unit} (h : release = runRelease env opts) : Stops release := by
  rw [h, runRelease]
  -- whatever the version is
  generalize normalizeSemver opts.version = normalized
  refine Stops.andThen (stops_lift normalized) fun version => ?_
  have hlook : (perform (.canonicalize opts.repoRoot)).Calls fun act => ∀ r, ¬ Fails act r :=
    calls_perform fun _ => id
  refine stops_bind hlook fun canonical => ?_
  refine Stops.andThen (stops_verifySemverLockstep env _ version) fun _ => ?_
  split
  · exact stops_lift _
  · refine Stops.andThen (stops_buildBinaries _ _) fun _ => ?_
    exact Stops.andThen (stops_checkBinaries _ _ _ _) fun _ => stops_publish _ _ _ _

/-- A failed step is the last: nothing is built, written or published after it, and the release reports an
error. -/
theorem failed_last (env : Env N) (opts : ReleaseOptions) {tr pre post : Trace} {outcome : Except String Unit}
    (h : Proc.Traces (runRelease env opts) tr outcome) {act : Act} {r : act.Ans}
    (heq : tr = pre ++ ⟨act, r⟩ :: post) (hfails : Fails act r) : post = [] ∧ ∃ e, outcome = .error e := by
  -- from here on it does not matter what the release does, only that it stops
  generalize hrelease : runRelease env opts = release at h
  exact Proc.EndsOn.of_trace (stops_of_eq_runRelease hrelease.symm) h heq hfails

theorem failed_last_demo : ∃ pre act r, demoTrace (.error "read-only") = pre ++ [⟨act, r⟩] ∧ Fails act r ∧
    ∃ e, (Proc.run (demoAnswer (.error "read-only")) (runRelease demoEnv demoOpts) ()).1 = .error e := by
  obtain ⟨pre, act, r, post, htrace, hrefused⟩ := exists_of_any demoTrace_refused
  have hfails : Fails act r := by
    cases act with
    | createDirAll path =>
        cases r with
        | error e => rfl
        | ok u => cases hrefused
    | _ => cases hrefused
  obtain ⟨rfl, e, he⟩ := failed_last demoEnv demoOpts
    (Proc.traces_traceOf (demoAnswer (.error "read-only")) _ ()) htrace hfails
  exact ⟨pre, act, r, htrace, hfails, e, he⟩

end Published

end Pipeline
end Release
end Aivcs
