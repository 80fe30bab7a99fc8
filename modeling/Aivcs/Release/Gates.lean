import Aivcs.Release.Pipeline

/-!
# Release.Gates — what the gates of a release have seen, and what they leave alone

For each gate: from a run of it that lets through, the calls it has made and the answers it has had; and a
gate neither writes a file nor runs a command that gives something away.

* `locked_of_ok`, `built_of_ok`, `checked_of_ok` — what has been seen;
* `quiet_verifySemverLockstep`, `quiet_buildBinaries`, `quiet_checkBinaries` — what is left alone.
-/

namespace Aivcs
namespace Release
namespace Pipeline

open Lib

/-! ## What a gate has seen when it lets through -/

abbrev Trace : Type :=
  List ((act : Act) × act.Ans)

section Gates

variable {N : Type} {env : Env N} {opts : ReleaseOptions} {root version : String} {tr : Trace} {α : Type} {a : α}

theorem ok_of_withContext {context : String} {step : Step α}
    (h : Proc.Traces (withContext context step) tr (.ok a)) : Proc.Traces step tr (.ok a) := by
  obtain ⟨tr₁, result, tr₂, rfl, h₁, h₂⟩ := Proc.Traces.of_bind h
  obtain ⟨rfl, heq⟩ := Proc.Traces.of_ret h₂
  cases result with
  | error e => cases heq
  | ok b =>
      cases heq
      rwa [List.append_nil]

theorem ok_of_lift {result : Except String α} (h : Proc.Traces (lift result) tr (.ok a)) :
    tr = [] ∧ result = .ok a := by
  obtain ⟨rfl, heq⟩ := Proc.Traces.of_ret h
  exact ⟨rfl, heq.symm⟩

theorem ok_of_runChecked {cmd : Command} {label : String} {u : Unit}
    (h : Proc.Traces (runChecked cmd label) tr (.ok u)) :
    ∃ out, out.success = true ∧ tr = [⟨.run cmd, .ok out⟩] := by
  obtain ⟨tr₁, answer, tr₂, rfl, h₁, h₂⟩ := Proc.Traces.of_bind h
  obtain rfl := Proc.Traces.of_perform h₁
  cases answer with
  | error e =>
      cases (Proc.Traces.of_ret h₂).2
  | ok out =>
      cases hsuccess : out.success with
      | false =>
          simp only [hsuccess] at h₂
          cases (Proc.Traces.of_ret h₂).2
      | true =>
          simp only [hsuccess] at h₂
          obtain ⟨rfl, -⟩ := Proc.Traces.of_ret h₂
          exact ⟨out, hsuccess, rfl⟩

/-- The command was run, and it succeeded. -/
def Ran (cmd : Command) (tr : Trace) : Prop :=
  ∃ out, out.success = true ∧ ⟨.run cmd, .ok out⟩ ∈ tr

theorem Ran.mono {cmd : Command} {tr' : Trace} (h : Ran cmd tr) (hsub : ∀ ev ∈ tr, ev ∈ tr') : Ran cmd tr' := by
  obtain ⟨out, hsuccess, hmem⟩ := h
  exact ⟨out, hsuccess, hsub _ hmem⟩

theorem ran_of_ok {cmd : Command} {label : String} {u : Unit}
    (h : Proc.Traces (runChecked cmd label) tr (.ok u)) : Ran cmd tr := by
  obtain ⟨out, hsuccess, rfl⟩ := ok_of_runChecked h
  exact ⟨out, hsuccess, List.mem_singleton_self _⟩

/-- The repository is locked to the version. -/
structure Locked (env : Env N) (root version : String) (tr : Trace) : Prop where
  cargo : ∃ text, ⟨.readText (join root "Cargo.toml"), .ok text⟩ ∈ tr ∧
    readWorkspacePackageVersion env text = .ok version
  changelog : ∃ text, ⟨.readText (join root "CHANGELOG.md"), .ok text⟩ ∈ tr ∧
    changelogHasVersion text version = true
  docs : ∀ label ∈ ["README.md", "docs/getting-started.md"], ∃ answer,
    ⟨.readText (join root label), answer⟩ ∈ tr ∧ verifyDoc version (label, answer.toOption.getD "") = .ok ()

theorem locked_of_ok {u : Unit} (h : Proc.Traces (verifySemverLockstep env root version) tr (.ok u)) :
    Locked env root version tr := by
  -- the manifest
  obtain ⟨_, cargo, _, rfl, h₁, hrest₁⟩ := Proc.Traces.of_andThen_ok h
  obtain rfl := Proc.Traces.of_perform (ok_of_withContext h₁)
  obtain ⟨_, current, _, rfl, h₂, hrest₂⟩ := Proc.Traces.of_andThen_ok hrest₁
  obtain ⟨rfl, hcurrent⟩ := ok_of_lift h₂
  by_cases hne : current ≠ version
  · rw [if_pos hne] at hrest₂
    cases (ok_of_lift hrest₂).2
  rw [if_neg hne] at hrest₂
  obtain rfl := not_not.1 hne
  -- the changelog
  obtain ⟨_, changelog, _, rfl, h₃, hrest₃⟩ := Proc.Traces.of_andThen_ok hrest₂
  obtain rfl := Proc.Traces.of_perform (ok_of_withContext h₃)
  by_cases hhas : changelogHasVersion changelog current = true
  · rw [if_pos hhas] at hrest₃
    -- the documents
    obtain ⟨_, readme, _, rfl, h₄, hrest₄⟩ := Proc.Traces.of_bind hrest₃
    obtain rfl := Proc.Traces.of_perform h₄
    obtain ⟨_, getting, _, rfl, h₅, hrest₅⟩ := Proc.Traces.of_bind hrest₄
    obtain rfl := Proc.Traces.of_perform h₅
    obtain ⟨rfl, hpins⟩ := ok_of_lift hrest₅
    have hdocs := verify_ok_iff_docs.1 hpins
    refine ⟨⟨cargo, by simp, hcurrent⟩, ⟨changelog, by simp, hhas⟩, fun label hlabel => ?_⟩
    rcases List.mem_cons.1 hlabel with rfl | hlabel
    · exact ⟨readme, by simp, hdocs _ (by simp)⟩
    · obtain rfl := List.mem_singleton.1 hlabel
      exact ⟨getting, by simp, hdocs _ (by simp)⟩
  · rw [if_neg hhas] at hrest₃
    cases (ok_of_lift hrest₃).2

/-- The target directory, the platform and the name of each Linux binary. -/
def linuxTargets : List (String × Option String × String) :=
  [("linux-arm64", none, "aivcs-linux-arm64"), ("linux-amd64", some "linux/amd64", "aivcs-linux-x86_64")]

/-- The binaries are built. -/
structure Built (opts : ReleaseOptions) (root : String) (tr : Trace) : Prop where
  check : Ran (cargoCheck root) tr
  build : Ran (cargoBuild root) tr
  copied : ⟨.copy (join root "target/release/aivcs") (join opts.buildDir "aivcs-darwin-arm64"), .ok ()⟩ ∈ tr
  linux : opts.skipLinux = false → ∀ target ∈ linuxTargets, ∃ token cfg,
    Ran (dockerBuild root opts.buildDir target.1 target.2.1 target.2.2 token cfg) tr

theorem ran_of_dockerLinuxBuild {buildDir dir name : String} {platform : Option String} {u : Unit}
    (h : Proc.Traces (dockerLinuxBuild root buildDir dir platform name) tr (.ok u)) :
    ∃ token cfg, Ran (dockerBuild root buildDir dir platform name token cfg) tr := by
  obtain ⟨_, token, _, rfl, -, hrest₁⟩ := Proc.Traces.of_bind h
  obtain ⟨_, cfg, _, rfl, -, hrest₂⟩ := Proc.Traces.of_bind hrest₁
  obtain ⟨_, _, _, rfl, h₁, -⟩ := Proc.Traces.of_andThen_ok hrest₂
  exact ⟨token, cfg, (ran_of_ok h₁).mono fun _ hev => by simp [hev]⟩

theorem built_of_ok {u : Unit} (h : Proc.Traces (buildBinaries opts root) tr (.ok u)) : Built opts root tr := by
  obtain ⟨_, _, _, rfl, -, hrest₁⟩ := Proc.Traces.of_andThen_ok h
  obtain ⟨_, _, _, rfl, h₁, hrest₂⟩ := Proc.Traces.of_andThen_ok hrest₁
  obtain ⟨_, _, _, rfl, h₂, hrest₃⟩ := Proc.Traces.of_andThen_ok hrest₂
  obtain ⟨_, _, _, rfl, h₃, hrest₄⟩ := Proc.Traces.of_andThen_ok hrest₃
  obtain rfl := Proc.Traces.of_perform (ok_of_withContext h₃)
  obtain ⟨_, _, _, rfl, -, hrest₅⟩ := Proc.Traces.of_andThen_ok hrest₄
  refine ⟨(ran_of_ok h₁).mono fun _ hev => ?_, (ran_of_ok h₂).mono fun _ hev => ?_, by simp, ?_⟩
  · simp [hev]
  · simp [hev]
  -- the Linux binaries
  intro hlinux target htarget
  rw [if_neg (by simp [hlinux])] at hrest₅
  obtain ⟨_, _, _, rfl, harm, hamd⟩ := Proc.Traces.of_andThen_ok hrest₅
  rcases List.mem_cons.1 htarget with rfl | htarget
  · obtain ⟨token, cfg, hran⟩ := ran_of_dockerLinuxBuild harm
    exact ⟨token, cfg, hran.mono fun _ hev => by simp [hev]⟩
  · obtain rfl := List.mem_singleton.1 htarget
    obtain ⟨token, cfg, hran⟩ := ran_of_dockerLinuxBuild hamd
    exact ⟨token, cfg, hran.mono fun _ hev => by simp [hev]⟩

/-- The command that asks a binary for its version. -/
def versionCommandOf (opts : ReleaseOptions) (name : String) : Command :=
  if name = "aivcs-darwin-arm64" then versionCommand (join opts.buildDir name)
  else dockerVersionCommand opts.buildDir name (if name = "aivcs-linux-x86_64" then some "linux/amd64" else none)

/-- The calls that write the checksums of these files. -/
def sumsTrace (env : Env N) (dir : String) (files : List (String × Bytes)) : Trace :=
  files.flatMap fun file =>
    [⟨.readBytes (join dir file.1), .ok file.2⟩,
      ⟨.append (sumsFile dir) (sumsLine (env.sha256Hex file.2) file.1), .ok ()⟩]

/-- The binaries are what they should be, and their checksums and the notes are ready. -/
structure Checked (env : Env N) (opts : ReleaseOptions) (root version : String) (cleared : Cleared)
    (tr : Trace) : Prop where
  printed : ∀ name ∈ opts.names, ∃ out, out.success = true ∧ printed out = "aivcs " ++ version ∧
    ⟨.run (versionCommandOf opts name), .ok out⟩ ∈ tr
  audited : ∀ name ∈ opts.names, ∃ bytes, ⟨.readBytes (join opts.buildDir name), .ok bytes⟩ ∈ tr ∧
    ∀ pat ∈ forbiddenDeploymentPatterns, ¬ utf8 pat <:+: bytes
  summed : ∃ (before after : Trace) (files : List (String × Bytes)), files.map Prod.fst = opts.names ∧
    tr = before ++
      ⟨.createFile (sumsFile opts.buildDir), .ok ()⟩ :: (sumsTrace env opts.buildDir files ++ after) ∧
    cleared.digests = files.map fun file => (file.1, env.sha256Hex file.2)
  notes : ∃ text, ⟨.readText (join root "CHANGELOG.md"), .ok text⟩ ∈ tr ∧
    extractSection text version = .ok cleared.notes

theorem ok_of_checkPrinted {label expected : String} {out : Output} {u : Unit}
    (h : checkPrinted label expected out = .ok u) : printed out = expected := by
  unfold checkPrinted at h
  by_cases hne : printed out ≠ expected
  · rw [if_pos hne] at h
    cases h
  · exact not_not.1 hne

theorem ok_of_checkVersion {cmd : Command} {context label expected : String} {failed : Output → String} {u : Unit}
    (h : Proc.Traces (checkVersion cmd context label expected failed) tr (.ok u)) :
    ∃ out, out.success = true ∧ printed out = expected ∧ ⟨.run cmd, .ok out⟩ ∈ tr := by
  obtain ⟨_, out, _, rfl, h₁, hrest⟩ := Proc.Traces.of_andThen_ok h
  obtain rfl := Proc.Traces.of_perform (ok_of_withContext h₁)
  by_cases hsuccess : out.success = true
  · rw [if_pos hsuccess] at hrest
    exact ⟨out, hsuccess, ok_of_checkPrinted (ok_of_lift hrest).2, by simp⟩
  · rw [if_neg hsuccess] at hrest
    cases (ok_of_lift hrest).2

theorem ok_of_assertVersions {expected : String} {u : Unit}
    (h : Proc.Traces (assertVersions opts expected) tr (.ok u)) :
    ∀ name ∈ opts.names, ∃ out, out.success = true ∧ printed out = expected ∧
      ⟨.run (versionCommandOf opts name), .ok out⟩ ∈ tr := by
  obtain ⟨darwin, _, linux, rfl, hdarwin, hrest₁⟩ := Proc.Traces.of_andThen_ok h
  obtain ⟨host, hhost, hprinted, hmem⟩ := ok_of_checkVersion hdarwin
  have hfirst : ∃ out, out.success = true ∧ printed out = expected ∧
      ⟨.run (versionCommandOf opts "aivcs-darwin-arm64"), .ok out⟩ ∈ darwin ++ linux :=
    ⟨host, hhost, hprinted, List.mem_append_left _ hmem⟩
  intro name hname
  unfold ReleaseOptions.names at hname
  -- with or without the Linux binaries
  split at hname
  · obtain rfl := List.mem_singleton.1 hname
    exact hfirst
  · next hlinux =>
      rw [if_neg hlinux] at hrest₁
      obtain ⟨_, _, _, rfl, harm, hamd⟩ := Proc.Traces.of_andThen_ok hrest₁
      simp only [artifacts, List.mem_cons, List.not_mem_nil, or_false] at hname
      rcases hname with rfl | rfl | rfl
      · exact hfirst
      · obtain ⟨out, hsuccess, hout, hmem'⟩ := ok_of_checkVersion harm
        exact ⟨out, hsuccess, hout, List.mem_append_right _ (List.mem_append_left _ hmem')⟩
      · obtain ⟨out, hsuccess, hout, hmem'⟩ := ok_of_checkVersion hamd
        exact ⟨out, hsuccess, hout, List.mem_append_right _ (List.mem_append_right _ hmem')⟩

theorem occurs_iff {needle bytes : Bytes} : occurs needle bytes = true ↔ needle <:+: bytes := by
  rw [List.infix_iff_prefix_suffix]
  simp only [occurs, List.any_eq_true, List.mem_tails, List.isPrefixOf_iff_prefix, and_comm]

theorem audit_ok_iff {bytes : Bytes} {patterns : List String} {u : Unit} :
    auditBinaryBytes bytes patterns = .ok u ↔ ∀ pat ∈ patterns, ¬ utf8 pat <:+: bytes := by
  have hnil : (patterns.filter fun pat => occurs (utf8 pat) bytes) = [] ↔
      ∀ pat ∈ patterns, ¬ utf8 pat <:+: bytes := by
    simp only [List.filter_eq_nil_iff, occurs_iff]
  rw [← hnil]
  unfold auditBinaryBytes
  cases patterns.filter fun pat => occurs (utf8 pat) bytes with
  | nil => exact ⟨fun _ => rfl, fun _ => rfl⟩
  | cons hit hits => exact ⟨nofun, nofun⟩

theorem ok_of_auditAll {buildDir : String} {names : List String} {u : Unit}
    (h : Proc.Traces (auditAll buildDir names) tr (.ok u)) :
    ∀ name ∈ names, ∃ bytes, ⟨.readBytes (join buildDir name), .ok bytes⟩ ∈ tr ∧
      ∀ pat ∈ forbiddenDeploymentPatterns, ¬ utf8 pat <:+: bytes := by
  induction names generalizing tr with
  | nil =>
      intro name hname
      cases hname
  | cons first names ih =>
      -- the first file is audited before the others
      obtain ⟨_, _, rest, rfl, h₁, hrest⟩ := Proc.Traces.of_andThen_ok h
      intro name hname
      rcases List.mem_cons.1 hname with rfl | hname
      · obtain ⟨_, bytes, _, rfl, h₂, hlift⟩ := Proc.Traces.of_andThen_ok h₁
        obtain rfl := Proc.Traces.of_perform (ok_of_withContext h₂)
        refine ⟨bytes, by simp, ?_⟩
        have hok := (ok_of_lift hlift).2
        cases haudit : auditBinaryBytes bytes forbiddenDeploymentPatterns with
        | error hits =>
            rw [haudit] at hok
            cases hok
        | ok u => exact audit_ok_iff.1 haudit
      · obtain ⟨bytes, hmem, hclean⟩ := ih hrest name hname
        exact ⟨bytes, List.mem_append_right _ hmem, hclean⟩

theorem ok_of_appendSums {dir : String} {names : List String} {pairs : List (String × String)}
    (h : Proc.Traces (appendSums env dir names) tr (.ok pairs)) :
    ∃ files : List (String × Bytes), files.map Prod.fst = names ∧ tr = sumsTrace env dir files ∧
      pairs = files.map fun file => (file.1, env.sha256Hex file.2) := by
  induction names generalizing tr pairs with
  | nil =>
      obtain ⟨rfl, heq⟩ := ok_of_lift h
      cases heq
      exact ⟨[], rfl, rfl, rfl⟩
  | cons name names ih =>
      -- the file is read, its line is appended, and then come the others
      obtain ⟨_, digest, _, rfl, h₁, hrest₁⟩ := Proc.Traces.of_andThen_ok h
      obtain ⟨_, bytes, _, rfl, h₂, hdigest⟩ := Proc.Traces.of_andThen_ok h₁
      obtain rfl := Proc.Traces.of_perform (ok_of_withContext h₂)
      obtain ⟨rfl, heq⟩ := ok_of_lift hdigest
      cases heq
      obtain ⟨_, _, _, rfl, h₃, hrest₂⟩ := Proc.Traces.of_andThen_ok hrest₁
      obtain rfl := Proc.Traces.of_perform h₃
      obtain ⟨_, pairs', _, rfl, h₄, hlift⟩ := Proc.Traces.of_andThen_ok hrest₂
      obtain ⟨rfl, heq⟩ := ok_of_lift hlift
      cases heq
      obtain ⟨files, rfl, rfl, rfl⟩ := ih h₄
      exact ⟨(name, bytes) :: files, rfl, by simp [sumsTrace], rfl⟩

theorem checked_of_ok {cleared : Cleared} (h : Proc.Traces (checkBinaries env opts root version) tr (.ok cleared)) :
    Checked env opts root version cleared tr := by
  -- the calls of the four parts, one after the other
  obtain ⟨versions, _, _, rfl, hversions, hrest₁⟩ := Proc.Traces.of_andThen_ok h
  obtain ⟨audits, _, _, rfl, haudit, hrest₂⟩ := Proc.Traces.of_andThen_ok hrest₁
  obtain ⟨_, digests, _, rfl, hsums, hrest₃⟩ := Proc.Traces.of_andThen_ok hrest₂
  obtain ⟨_, notes, _, rfl, hnotes, hlift⟩ := Proc.Traces.of_andThen_ok hrest₃
  obtain ⟨rfl, heq⟩ := ok_of_lift hlift
  cases heq
  obtain ⟨_, _, _, rfl, hcreate, happend⟩ := Proc.Traces.of_andThen_ok hsums
  obtain rfl := Proc.Traces.of_perform (ok_of_withContext hcreate)
  obtain ⟨files, hnames, rfl, rfl⟩ := ok_of_appendSums happend
  obtain ⟨_, changelog, _, rfl, hread, hextract⟩ := Proc.Traces.of_andThen_ok hnotes
  obtain rfl := Proc.Traces.of_perform hread
  obtain ⟨rfl, hsection⟩ := ok_of_lift hextract
  refine ⟨fun name hname => ?_, fun name hname => ?_, ?_, changelog, by simp, hsection⟩
  · obtain ⟨out, hsuccess, hprinted, hmem⟩ := ok_of_assertVersions hversions name hname
    exact ⟨out, hsuccess, hprinted, List.mem_append_left _ hmem⟩
  · obtain ⟨bytes, hmem, hclean⟩ := ok_of_auditAll haudit name hname
    exact ⟨bytes, List.mem_append_right _ (List.mem_append_left _ hmem), hclean⟩
  · exact ⟨versions ++ audits, [⟨.readText (join root "CHANGELOG.md"), .ok changelog⟩], files, hnames,
      by simp, rfl⟩

/-! ## What the gates leave alone -/

/-- Writing a file, and a command that gives something away: anything but a build, a run in a container or a
look at a version. -/
def Publishes : Act → Prop
  | .write _ _ => True
  | .run cmd => cmd.program ∈ ["gh", "git", "brew"] ∨ cmd.args.head? = some "publish" ∨
      cmd.program = "docker" ∧ cmd.args.head? ≠ some "run"
  | _ => False

/-- A program that publishes nothing, whatever it is answered. -/
abbrev Quiet (p : Program α) : Prop :=
  p.Calls fun act => ¬ Publishes act

variable {P : Act → Prop}

theorem calls_perform {act : Act} (h : P act) : (perform act).Calls P :=
  ⟨h, fun _ => trivial⟩

theorem calls_lift {result : Except String α} : (lift result).Calls P :=
  trivial

theorem calls_withContext {context : String} {step : Step α} (h : step.Calls P) :
    (withContext context step).Calls P :=
  h.bind fun _ => trivial

theorem calls_runChecked {cmd : Command} {label : String} (h : P (.run cmd)) :
    (runChecked cmd label).Calls P := by
  refine (calls_perform h).bind fun answer => ?_
  cases answer with
  | error e => trivial
  | ok out =>
      show Proc.Calls P (if out.success then _ else _)
      split <;> trivial

theorem quiet_verifySemverLockstep (env : Env N) (root version : String) :
    Quiet (verifySemverLockstep env root version) := by
  refine (calls_withContext (calls_perform id)).andThen fun cargo => calls_lift.andThen fun current => ?_
  split
  · trivial
  · refine (calls_withContext (calls_perform id)).andThen fun changelog => ?_
    split
    · exact (calls_perform id).bind fun _ => (calls_perform id).bind fun _ => trivial
    · trivial

/-- A look at the environment or at a file that need not be there. -/
def Looks : Act → Prop
  | .envVar _ => True
  | .isFile _ => True
  | .readText _ => True
  | _ => False

theorem Looks.not_publishes {act : Act} (h : Looks act) : ¬ Publishes act := by
  cases act with
  | envVar name => exact id
  | isFile path => exact id
  | readText path => exact id
  | _ => exact h.elim

theorem looks_registryAivcsToken : registryAivcsToken.Calls Looks := by
  refine ⟨trivial, fun token => ?_⟩
  show Proc.Calls Looks (if trim (token.getD "") ≠ "" then _ else _)
  split
  · trivial
  · refine ⟨trivial, fun home => ?_⟩
    cases home with
    | none => trivial
    | some home =>
        refine ⟨trivial, fun text => ?_⟩
        cases text <;> trivial

theorem looks_cargoConfig : cargoConfig.Calls Looks := by
  refine ⟨trivial, fun home => ?_⟩
  cases home with
  | none => trivial
  | some home =>
      refine ⟨trivial, fun there => ?_⟩
      cases there <;> trivial

theorem looks_ensureForgeConfigured : ensureForgeConfigured.Calls Looks := by
  refine (calls_perform trivial).bind fun url => ?_
  split
  · trivial
  · refine (calls_perform trivial).bind fun home => (calls_perform trivial).bind fun inHome => ?_
    split
    · trivial
    · refine (calls_perform trivial).bind fun aivcsHome => ?_
      cases aivcsHome with
      | none => trivial
      | some path =>
          refine (calls_perform trivial).bind fun there => ?_
          split <;> trivial

/-- A container is run. -/
theorem not_publishes_docker {args : List String} {env : List (String × String)} {dir : Option String} :
    ¬ Publishes (.run ⟨"docker", "run" :: args, env, dir⟩) := by
  simp [Publishes]

theorem quiet_dockerLinuxBuild (root buildDir dir : String) (platform : Option String) (name : String) :
    Quiet (dockerLinuxBuild root buildDir dir platform name) :=
  (looks_registryAivcsToken.mono fun _ => Looks.not_publishes).bind fun _ =>
    (looks_cargoConfig.mono fun _ => Looks.not_publishes).bind fun _ =>
    (calls_runChecked not_publishes_docker).andThen fun _ => calls_perform id

theorem quiet_buildBinaries (opts : ReleaseOptions) (root : String) : Quiet (buildBinaries opts root) := by
  refine (calls_perform id).andThen fun _ => (calls_runChecked (by simp [Publishes, cargoCheck])).andThen fun _ =>
    (calls_runChecked (by simp [Publishes, cargoBuild])).andThen fun _ =>
    (calls_withContext (calls_perform id)).andThen fun _ => (calls_perform id).andThen fun _ => ?_
  split
  · trivial
  · exact (quiet_dockerLinuxBuild _ _ _ _ _).andThen fun _ => quiet_dockerLinuxBuild _ _ _ _ _

theorem length_join (dir path : String) : path.length ≤ (join dir path).length := by
  unfold join
  split
  · rw [String.length_append]
    omega
  · rw [String.length_append, String.length_append]
    omega

/-- The program is a binary of the release: its path is too long for the name of a tool. -/
theorem not_publishes_version (dir : String) :
    ¬ Publishes (.run (versionCommand (join dir "aivcs-darwin-arm64"))) := by
  -- the name alone has 18 characters
  have hne : ∀ {tool : String}, tool.length < 18 → join dir "aivcs-darwin-arm64" ≠ tool := by
    rintro tool hshort rfl
    exact Nat.not_lt.2 (length_join dir "aivcs-darwin-arm64") hshort
  have hgh : join dir "aivcs-darwin-arm64" ≠ "gh" := hne (by decide)
  have hgit : join dir "aivcs-darwin-arm64" ≠ "git" := hne (by decide)
  have hbrew : join dir "aivcs-darwin-arm64" ≠ "brew" := hne (by decide)
  have hdocker : join dir "aivcs-darwin-arm64" ≠ "docker" := hne (by decide)
  simp [Publishes, versionCommand, hgh, hgit, hbrew, hdocker]

theorem calls_checkVersion {cmd : Command} {context label expected : String} {failed : Output → String}
    (h : P (.run cmd)) : (checkVersion cmd context label expected failed).Calls P := by
  refine (calls_withContext (calls_perform h)).andThen fun out => ?_
  split <;> trivial

theorem quiet_auditAll (buildDir : String) (names : List String) : Quiet (auditAll buildDir names) := by
  induction names with
  | nil => trivial
  | cons name names ih =>
      exact ((calls_withContext (calls_perform id)).andThen fun _ => calls_lift).andThen fun _ => ih

theorem quiet_appendSums (env : Env N) (dir : String) (names : List String) : Quiet (appendSums env dir names) := by
  induction names with
  | nil => trivial
  | cons name names ih =>
      exact ((calls_withContext (calls_perform id)).andThen fun _ => calls_lift).andThen fun _ =>
        (calls_perform id).andThen fun _ => ih.andThen fun _ => trivial

theorem quiet_checkBinaries (env : Env N) (opts : ReleaseOptions) (root version : String) :
    Quiet (checkBinaries env opts root version) := by
  have hversions : Quiet (assertVersions opts (expectedCliVersionLine version)) := by
    refine Proc.Calls.andThen (calls_checkVersion (not_publishes_version _)) fun _ => ?_
    split
    · trivial
    · exact Proc.Calls.andThen (calls_checkVersion not_publishes_docker) fun _ =>
        calls_checkVersion not_publishes_docker
  have hsums : Quiet (writeSha256sums env opts.buildDir opts.names) :=
    (calls_withContext (calls_perform id)).andThen fun _ => quiet_appendSums _ _ _
  have hnotes : Quiet (readNotes root version) :=
    (calls_perform id).andThen fun _ => trivial
  exact hversions.andThen fun _ => (quiet_auditAll _ _).andThen fun _ => hsums.andThen fun _ =>
    hnotes.andThen fun _ => trivial

end Gates

end Pipeline
end Release
end Aivcs
