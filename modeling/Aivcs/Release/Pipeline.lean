import Aivcs.Lib.JsonDoc
import Aivcs.Lib.Lines
import Aivcs.Lib.Proc
import Aivcs.Lib.Utf8Lossy
import Aivcs.Release.SemverLock

/-!
# Release.Pipeline — the gates of a public release

`aivcs_release::pipeline`: `run_release` checks that the repository is locked to the version, builds the
binaries, checks what they print and contain, writes their checksums, and then publishes.  It is a program
whose calls go to the file system, the environment and other programs, and nothing is assumed about their
answers.
-/

namespace Aivcs
namespace Release
namespace Pipeline

open Lib

/-! ## The world of a release -/

structure Command where
  program : String
  args : List String
  env : List (String × String) := []
  dir : Option String := none

structure Output where
  success : Bool
  /-- How the exit status is written. -/
  status : String
  stdout : Bytes
  stderr : Bytes

/-- A look at the file system or the environment, a change of a file, or a program run to its end. -/
inductive Act where
  | canonicalize (path : String)
  | envVar (name : String)
  | tempDir
  | isDir (path : String)
  | isFile (path : String)
  | readText (path : String)
  | readBytes (path : String)
  | createDirAll (path : String)
  | write (path content : String)
  | createFile (path : String)
  | append (path content : String)
  | copy (source target : String)
  | setExecutable (path : String)
  | run (command : Command)

abbrev Act.Ans : Act → Type
  | canonicalize _ => Option String
  | envVar _ => Option String
  | tempDir => String
  | isDir _ => Bool
  | isFile _ => Bool
  | readText _ => Except String String
  | readBytes _ => Except String Bytes
  | createDirAll _ => Except String Unit
  | write _ _ => Except String Unit
  | createFile _ => Except String Unit
  | append _ _ => Except String Unit
  | copy _ _ => Except String Unit
  | setExecutable _ => Except String Unit
  | run _ => Except String Output

abbrev Program (α : Type) : Type :=
  Proc Act Act.Ans α

/-- A part of the release that may fail; an error is the text that is printed for it. -/
abbrev Step (α : Type) : Type :=
  Program (Except String α)

def perform (act : Act) : Program act.Ans :=
  Proc.perform act

/-- `with_context`. -/
def withContext {α : Type} (context : String) (step : Step α) : Step α :=
  step.bind fun result => .ret (result.mapError fun _ => context)

def lift {α : Type} (result : Except String α) : Step α :=
  .ret result

/-- `Path::join`, of a relative path. -/
def join (dir path : String) : String :=
  if dir.toList.getLast?.all fun c => c = '/' then dir ++ path else dir ++ "/" ++ path

/-- The packages that are called. -/
structure Env (N : Type) where
  parseToml : String → Except String (Doc N)
  /-- SHA-256, in lower-case hexadecimal. -/
  sha256Hex : Bytes → String

structure ReleaseOptions where
  version : String
  repoRoot : String
  buildDir : String
  githubRepo : String
  homebrewTapDir : Option String
  verifyOnly : Bool
  skipLinux : Bool
  skipGithub : Bool
  skipHomebrew : Bool
  skipForge : Bool
  dockerRelease : Bool
  homebrewTest : Bool

def artifacts : List String :=
  ["aivcs-darwin-arm64", "aivcs-linux-arm64", "aivcs-linux-x86_64"]

/-- What is built and checked. -/
def ReleaseOptions.names (opts : ReleaseOptions) : List String :=
  if opts.skipLinux then ["aivcs-darwin-arm64"] else artifacts

def trim (text : String) : String :=
  String.ofList (trimBoth isWhitespace text.toList)

def lines (text : String) : List String :=
  (strLines text.toList).map String.ofList

def startsWith (front text : String) : Bool :=
  front.toList.isPrefixOf text.toList

/-! ## Gate 1: the version -/

section Lockstep

variable {N : Type} (env : Env N)

def readWorkspacePackageVersion (cargoToml : String) : Except String String :=
  match env.parseToml cargoToml with
  | .error _ => .error "parse Cargo.toml"
  | .ok value =>
      match (((value.get? "workspace").bind (Doc.get? "package")).bind (Doc.get? "version")).bind Doc.asStr? with
      | some version => .ok version
      | none => .error "Cargo.toml missing [workspace.package] version"

def changelogHeader (version : String) : String :=
  "## [" ++ version ++ "]"

def changelogHasVersion (changelog version : String) : Bool :=
  (lines changelog).any (startsWith (changelogHeader version))

def verifySemverLockstep (root target : String) : Step Unit :=
  (withContext ("read " ++ join root "Cargo.toml") (perform (.readText (join root "Cargo.toml")))).andThen
    fun cargo =>
  (lift (readWorkspacePackageVersion env cargo)).andThen fun current =>
  if current ≠ target then
    lift (.error ("Cargo.toml version is '" ++ current ++ "', expected '" ++ target ++
      "'. Bump workspace.package.version and CHANGELOG before releasing."))
  else
  (withContext ("read " ++ join root "CHANGELOG.md") (perform (.readText (join root "CHANGELOG.md")))).andThen
    fun changelog =>
  if changelogHasVersion changelog target then
    (perform (.readText (join root "README.md"))).bind fun readme =>
    (perform (.readText (join root "docs/getting-started.md"))).bind fun getting =>
    -- a document that cannot be read is empty
    lift (verifyDocsDownloadPins [("README.md", readme.toOption.getD ""),
      ("docs/getting-started.md", getting.toOption.getD "")] target)
  else lift (.error ("CHANGELOG.md missing '" ++ changelogHeader target ++ "' section"))

end Lockstep

/-! ## Gates 2 and 3: the binaries -/

def runChecked (cmd : Command) (label : String) : Step Unit :=
  (perform (.run cmd)).bind fun
    -- the program could not be started
    | .error _ => .ret (.error ("spawn " ++ label))
    | .ok out =>
        if out.success then .ret (.ok ()) else .ret (.error (label ++ " failed with " ++ out.status))

def cargoCheck (root : String) : Command :=
  { program := "cargo", args := ["check", "-p", "aivcs-cli", "--quiet"], dir := some root }

def cargoBuild (root : String) : Command :=
  { program := "cargo", args := ["build", "--release", "-p", "aivcs-cli"], dir := some root }

def ensureBearer (token : String) : String :=
  let t := trim token
  if startsWith "bearer " (asciiLower t) then t else "Bearer " ++ t

def singleQuote : Char :=
  Char.ofNat 39

/-- The value of a `token = "…"` line, without its quotes. -/
def tokenValue (line : String) : Option String :=
  match splitOnce '=' line.toList with
  | none => none
  | some (_, raw) =>
      let value := trim (String.ofList (trimBoth (fun c => c = singleQuote) (trimBoth (fun c => c = '"')
        (trimBoth isWhitespace raw))))
      if value = "" then none else some value

/-- The loop over the lines of `credentials.toml`, in the section that has been reached. -/
def credentialsToken : String → List String → Option String
  | _, [] => none
  | part, line :: rest =>
      let s := trim line
      if s.toList.head? = some '[' && s.toList.getLast? = some ']' then credentialsToken s rest
      else if part = "[registries.aivcs]" && startsWith "token" s then
        match tokenValue s with
        | some value => some (ensureBearer value)
        | none => credentialsToken part rest
      else credentialsToken part rest

def registryAivcsToken : Program (Option String) := do
  let token ← perform (.envVar "CARGO_REGISTRIES_AIVCS_TOKEN")
  -- a blank variable counts as none
  if trim (token.getD "") ≠ "" then
    pure (some (ensureBearer (trim (token.getD ""))))
  else
    match ← perform (.envVar "HOME") with
    | none => pure none
    | some home =>
        match ← perform (.readText (join home ".cargo/credentials.toml")) with
        | .error _ => pure none
        | .ok text => pure (credentialsToken "" (lines text))

/-- The `config.toml` that is given to the container, if there is one. -/
def cargoConfig : Program (Option String) := do
  match ← perform (.envVar "HOME") with
  | none => pure none
  | some home =>
      let cfg := join home ".cargo/config.toml"
      if ← perform (.isFile cfg) then pure (some cfg) else pure none

def dockerBuildScript (targetDirName outName : String) : String :=
  "apt-get update -qq && apt-get install -qq -y pkg-config libssl-dev cmake git protobuf-compiler && " ++
    "cargo build --release -p aivcs-cli --target-dir /tmp/cargo-target-" ++ targetDirName ++ " && " ++
    "cp /tmp/cargo-target-" ++ targetDirName ++ "/release/aivcs /out/" ++ outName

def dockerBuild (root buildDir targetDirName : String) (platform : Option String) (outName : String)
    (token cfg : Option String) : Command where
  program := "docker"
  args := ["run", "--rm", "-v", root ++ ":/src", "-v", buildDir ++ ":/out", "-w", "/src"] ++
    (match token with
      | some tok => ["-e", "CARGO_REGISTRIES_AIVCS_TOKEN=" ++ tok]
      | none => []) ++
    (match cfg with
      | some path => ["-v", path ++ ":/root/.cargo/config.toml:ro"]
      | none => []) ++
    (match platform with
      | some p => ["--platform", p]
      | none => []) ++
    ["rust:latest", "bash", "-c", dockerBuildScript targetDirName outName]

def dockerLinuxBuild (root buildDir targetDirName : String) (platform : Option String) (outName : String) :
    Step Unit :=
  registryAivcsToken.bind fun token =>
  cargoConfig.bind fun cfg =>
  (runChecked (dockerBuild root buildDir targetDirName platform outName token cfg)
    ("docker build " ++ outName)).andThen fun _ =>
  perform (.setExecutable (join buildDir outName))

/-- The two Linux builds. -/
def linuxBuilds (root buildDir : String) : Step Unit :=
  (dockerLinuxBuild root buildDir "linux-arm64" none "aivcs-linux-arm64").andThen fun _ =>
  dockerLinuxBuild root buildDir "linux-amd64" (some "linux/amd64") "aivcs-linux-x86_64"

def buildBinaries (opts : ReleaseOptions) (root : String) : Step Unit :=
  (perform (.createDirAll opts.buildDir)).andThen fun _ =>
  (runChecked (cargoCheck root) "cargo check -p aivcs-cli").andThen fun _ =>
  (runChecked (cargoBuild root) "cargo build --release -p aivcs-cli").andThen fun _ =>
  (withContext "copy host aivcs → aivcs-darwin-arm64"
    (perform (.copy (join root "target/release/aivcs") (join opts.buildDir "aivcs-darwin-arm64")))).andThen fun _ =>
  (perform (.setExecutable (join opts.buildDir "aivcs-darwin-arm64"))).andThen fun _ =>
  if opts.skipLinux then lift (.ok ()) else linuxBuilds root opts.buildDir

/-! ## Gates 4 to 6: what the binaries print and contain -/

/-- What a program has printed, without the line end. -/
def printed (out : Output) : String :=
  String.ofList (trimEnd (fun c => c = '\r') (trimBoth isWhitespace (fromUtf8Lossy out.stdout)))

def expectedCliVersionLine (version : String) : String :=
  "aivcs " ++ version

def versionCommand (bin : String) : Command :=
  { program := bin, args := ["--version"] }

def checkPrinted (label expected : String) (out : Output) : Except String Unit :=
  if printed out ≠ expected then
    .error (label ++ " reported '" ++ printed out ++ "', expected '" ++ expected ++ "'")
  else .ok ()

/-- Run a binary and compare what it prints. -/
def checkVersion (cmd : Command) (context label expected : String) (failed : Output → String) : Step Unit :=
  (withContext context (perform (.run cmd))).andThen fun out =>
  if out.success then lift (checkPrinted label expected out) else lift (.error (failed out))

def assertVersionOutput (bin expected label : String) : Step Unit :=
  checkVersion (versionCommand bin) ("run " ++ label ++ " --version") label expected fun out =>
    label ++ " --version failed: " ++ out.status

def dockerVersionCommand (buildDir name : String) (platform : Option String) : Command where
  program := "docker"
  args := ["run", "--rm", "-v", buildDir ++ ":/b"] ++
    (match platform with
      | some p => ["--platform", p]
      | none => []) ++
    ["debian:trixie-slim", "/b/" ++ name, "--version"]

def assertLinuxVersionViaDocker (buildDir name expected : String) (platform : Option String) : Step Unit :=
  checkVersion (dockerVersionCommand buildDir name platform) ("docker --version for " ++ name) name expected
    fun out => "docker run " ++ name ++ " --version failed: " ++ out.status ++ " stderr=" ++
      String.ofList (fromUtf8Lossy out.stderr)

def assertVersions (opts : ReleaseOptions) (expected : String) : Step Unit :=
  (assertVersionOutput (join opts.buildDir "aivcs-darwin-arm64") expected "aivcs-darwin-arm64").andThen fun _ =>
  if opts.skipLinux then lift (.ok ())
  else
  (assertLinuxVersionViaDocker opts.buildDir "aivcs-linux-arm64" expected none).andThen fun _ =>
  assertLinuxVersionViaDocker opts.buildDir "aivcs-linux-x86_64" expected (some "linux/amd64")

def forbiddenDeploymentPatterns : List String :=
  ["forge-v2.aivcs.io", "issuer.aivcs.io", "aivcsd.aivcs.io", "forge-v2-token", "import@aivcs.io"]

/-- One of the windows of the bytes is the needle, which is not empty. -/
def occurs (needle bytes : Bytes) : Bool :=
  bytes.tails.any fun window => needle.isPrefixOf window

def auditBinaryBytes (bytes : Bytes) (patterns : List String) : Except (List String) Unit :=
  match patterns.filter fun pat => occurs (utf8 pat) bytes with
  | [] => .ok ()
  | hits => .error hits

def auditBinaryFile (path : String) : Step Unit :=
  (withContext ("read " ++ path) (perform (.readBytes path))).andThen fun bytes =>
  lift ((auditBinaryBytes bytes forbiddenDeploymentPatterns).mapError fun hits =>
    path ++ " contains forbidden deployment strings: " ++ ", ".intercalate hits)

def auditAll (buildDir : String) : List String → Step Unit
  | [] => lift (.ok ())
  | name :: names => (auditBinaryFile (join buildDir name)).andThen fun _ => auditAll buildDir names

section Sums

variable {N : Type} (env : Env N)

def sumsFile (dir : String) : String :=
  join dir "SHA256SUMS"

def sumsLine (digest name : String) : String :=
  digest ++ "  " ++ name ++ "\n"

def sha256File (path : String) : Step String :=
  (withContext ("read " ++ path) (perform (.readBytes path))).andThen fun bytes =>
  lift (.ok (env.sha256Hex bytes))

/-- The loop over the names. -/
def appendSums (dir : String) : List String → Step (List (String × String))
  | [] => lift (.ok [])
  | name :: names =>
      (sha256File env (join dir name)).andThen fun digest =>
      (perform (.append (sumsFile dir) (sumsLine digest name))).andThen fun _ =>
      (appendSums dir names).andThen fun pairs =>
      lift (.ok ((name, digest) :: pairs))

def writeSha256sums (dir : String) (names : List String) : Step (List (String × String)) :=
  (withContext "create SHA256SUMS" (perform (.createFile (sumsFile dir)))).andThen fun _ =>
  appendSums env dir names

end Sums

/-! ## The notes -/

/-- The lines of the section, and whether it was found.  A second heading of the version is skipped too. -/
def sectionLines (header : String) : Bool → List String → Bool × List String
  | found, [] => (found, [])
  | found, line :: rest =>
      if startsWith header line then sectionLines header true rest
      else if found then
        -- the next version begins
        if startsWith "## [" line then (true, [])
        else (true, line :: (sectionLines header true rest).2)
      else sectionLines header false rest

def extractSection (changelog version : String) : Except String String :=
  let read := sectionLines (changelogHeader version) false (lines changelog)
  if read.1 then
    let trimmed := trim (String.join (read.2.map fun line => line ++ "\n"))
    if trimmed = "" then .error ("CHANGELOG section for " ++ version ++ " is empty") else .ok trimmed
  else .error ("CHANGELOG.md missing '" ++ changelogHeader version ++ "' section")

def readNotes (root version : String) : Step String :=
  (perform (.readText (join root "CHANGELOG.md"))).andThen fun changelog =>
  lift (extractSection changelog version)

/-- What the gates hand on: the digests by name, and the notes. -/
structure Cleared where
  digests : List (String × String)
  notes : String

def checkBinaries {N : Type} (env : Env N) (opts : ReleaseOptions) (root version : String) : Step Cleared :=
  (assertVersions opts (expectedCliVersionLine version)).andThen fun _ =>
  (auditAll opts.buildDir opts.names).andThen fun _ =>
  (writeSha256sums env opts.buildDir opts.names).andThen fun digests =>
  (readNotes root version).andThen fun notes =>
  lift (.ok ⟨digests, notes⟩)

/-! ## Gate 7: GitHub -/

def ghView (opts : ReleaseOptions) (tag : String) : Command :=
  { program := "gh", args := ["release", "view", tag], env := [("GH_REPO", opts.githubRepo)] }

def assets (names : List String) : List String :=
  names ++ ["SHA256SUMS"]

def notesPath (opts : ReleaseOptions) : String :=
  join opts.buildDir "RELEASE_NOTES.md"

def ghCreate (opts : ReleaseOptions) (tag version : String) : Command where
  program := "gh"
  args := ["release", "create", tag, "--title", "v" ++ version, "--notes-file", notesPath opts] ++
    assets opts.names
  env := [("GH_REPO", opts.githubRepo)]
  dir := some opts.buildDir

def ghUpload (opts : ReleaseOptions) (tag : String) : Command where
  program := "gh"
  args := ["release", "upload", tag] ++ assets opts.names ++ ["--clobber"]
  env := [("GH_REPO", opts.githubRepo)]
  dir := some opts.buildDir

def ghEdit (opts : ReleaseOptions) (tag : String) : Command where
  program := "gh"
  args := ["release", "edit", tag, "--notes-file", notesPath opts]
  env := [("GH_REPO", opts.githubRepo)]

def succeeded : Except String Output → Bool
  | .error _ => false
  | .ok out => out.success

def publishGithubRelease (opts : ReleaseOptions) (tag version notes : String) : Step Unit :=
  (perform (.write (notesPath opts) notes)).andThen fun _ =>
  (perform (.run (ghView opts tag))).bind fun viewed =>
  -- a look that fails, for whatever reason, counts as no release
  if succeeded viewed then
    (runChecked (ghUpload opts tag) "gh release upload").andThen fun _ =>
    runChecked (ghEdit opts tag) "gh release edit notes"
  else runChecked (ghCreate opts tag version) "gh release create"

/-! ## Gate 8: Homebrew -/

def unlines (text : List String) : String :=
  String.join (text.map fun line => line ++ "\n")

def digestOr (digests : List (String × String)) (name : String) : String :=
  (digests.lookup name).getD "SKIP"

/-- The formula of the tap; a binary that was not built has the digest `SKIP`. -/
def tapFormula (version : String) (digests : List (String × String)) : String :=
  unlines
    ["# typed: false",
     "# frozen_string_literal: true",
     "",
     "class Aivcs < Formula",
     "  desc \"AI Version Control System for Autonomous Agent Swarms\"",
     "  homepage \"https://github.com/aivcs-io/aivcs\"",
     "  version \"" ++ version ++ "\"",
     "  license \"Apache-2.0\"",
     "",
     "  on_macos do",
     "    on_arm do",
     "      url \"https://github.com/aivcs-io/aivcs/releases/download/v#\x7bversion\x7d/aivcs-darwin-arm64\"",
     "      sha256 \"" ++ digestOr digests "aivcs-darwin-arm64" ++ "\"",
     "    end",
     "  end",
     "",
     "  on_linux do",
     "    on_arm do",
     "      url \"https://github.com/aivcs-io/aivcs/releases/download/v#\x7bversion\x7d/aivcs-linux-arm64\"",
     "      sha256 \"" ++ digestOr digests "aivcs-linux-arm64" ++ "\"",
     "    end",
     "    on_intel do",
     "      url \"https://github.com/aivcs-io/aivcs/releases/download/v#\x7bversion\x7d/aivcs-linux-x86_64\"",
     "      sha256 \"" ++ digestOr digests "aivcs-linux-x86_64" ++ "\"",
     "    end",
     "  end",
     "",
     "  def install",
     "    binary = if OS.mac?",
     "      \"aivcs-darwin-arm64\"",
     "    elsif Hardware::CPU.arm?",
     "      \"aivcs-linux-arm64\"",
     "    else",
     "      \"aivcs-linux-x86_64\"",
     "    end",
     "    bin.install binary => \"aivcs\"",
     "  end",
     "",
     "  test do",
     "    assert_match version.to_s, shell_output(\"#\x7bbin\x7d/aivcs --version\")",
     "  end",
     "end"]

def gitAdd (tap : String) : Command :=
  { program := "git", args := ["add", "Formula/aivcs.rb"], dir := some tap }

def gitDiff (tap : String) : Command :=
  { program := "git", args := ["diff", "--cached", "--quiet"], dir := some tap }

def gitCommit (tap version : String) : Command where
  program := "git"
  args := ["commit", "-m", "chore(release): bump aivcs formula to " ++ version]
  dir := some tap

def gitPush (tap : String) : Command :=
  { program := "git", args := ["push", "origin", "HEAD"], dir := some tap }

def brewReinstall : Command :=
  { program := "brew", args := ["reinstall", "aivcs-io/tap/aivcs"] }

def brewTest : Command :=
  { program := "brew", args := ["test", "aivcs"] }

/-- What follows once the formula is in the tap. -/
def pushTap (opts : ReleaseOptions) (tap version : String) : Step Unit :=
  (runChecked (gitAdd tap) "git add formula").andThen fun _ =>
  (perform (.run (gitDiff tap))).andThen fun staged =>
  -- it succeeds where nothing is staged
  (if staged.success then lift (.ok ())
    else
    (runChecked (gitCommit tap version) "git commit formula").andThen fun _ =>
    runChecked (gitPush tap) "git push tap").andThen fun _ =>
  if opts.homebrewTest then
    (runChecked brewReinstall "brew reinstall").andThen fun _ =>
    runChecked brewTest "brew test"
  else lift (.ok ())

def updateHomebrew (opts : ReleaseOptions) (version : String) (digests : List (String × String)) : Step Unit :=
  match opts.homebrewTapDir with
  | none => lift (.ok ())
  | some tap =>
      (perform (.isDir tap)).bind fun there =>
      if there then
        (perform (.createDirAll (join tap "Formula"))).andThen fun _ =>
        (perform (.write (join tap "Formula/aivcs.rb") (tapFormula version digests))).andThen fun _ =>
        pushTap opts tap version
      else lift (.ok ())

def inRepoFormula (version : String) : String :=
  unlines
    ["# typed: false",
     "# frozen_string_literal: true",
     "",
     "class Aivcs < Formula",
     "  desc \"AI Version Control System for Autonomous Agent Swarms\"",
     "  homepage \"https://github.com/aivcs-io/aivcs\"",
     "  url \"https://github.com/aivcs-io/aivcs/archive/refs/tags/v" ++ version ++ ".tar.gz\"",
     "  version \"" ++ version ++ "\"",
     "  license \"Apache-2.0\"",
     "  # Prefer the aivcs-io/homebrew-tap bottle formula for prebuilt binaries.",
     "",
     "  depends_on \"rust\" => :build",
     "",
     "  def install",
     "    system \"cargo\", \"install\", *std_cargo_args(path: \"crates/aivcs-cli\")",
     "  end",
     "",
     "  test do",
     "    assert_match version.to_s, shell_output(\"#\x7bbin\x7d/aivcs --version\")",
     "  end",
     "end"]

def writeInRepoFormula (root version : String) : Step Unit :=
  (perform (.createDirAll (join root "Formula"))).andThen fun _ =>
  perform (.write (join root "Formula/aivcs.rb") (inRepoFormula version))

/-! ## Gates 9 and 10: images and the forge -/

def dockerfile : String :=
  unlines
    ["FROM debian:trixie-slim",
     "RUN apt-get update && apt-get install -y --no-install-recommends ca-certificates git libssl3 && " ++
       "rm -rf /var/lib/apt/lists/*",
     "ARG TARGETARCH",
     "COPY aivcs-linux-$\x7bTARGETARCH\x7d /usr/local/bin/aivcs",
     "RUN chmod +x /usr/local/bin/aivcs",
     "ENTRYPOINT [\"/usr/local/bin/aivcs\"]"]

def image (tag : String) : String :=
  "ghcr.io/aivcs-io/aivcs:" ++ tag

def imageBuild (tmp version arch : String) : Command where
  program := "docker"
  args := ["build", "--platform", "linux/" ++ arch, "-t", image (version ++ "-" ++ arch), "--build-arg",
    "TARGETARCH=" ++ arch, tmp]

def imageTag (version tag : String) : Command :=
  { program := "docker", args := ["tag", image (version ++ "-arm64"), image tag] }

def dockerDir (tempDir version : String) : String :=
  join tempDir ("aivcs-docker-v" ++ version)

def dockerImages (buildDir version : String) : Step Unit :=
  (perform .tempDir).bind fun tempDir =>
  let tmp := dockerDir tempDir version
  (perform (.createDirAll tmp)).andThen fun _ =>
  (perform (.write (join tmp "Dockerfile") dockerfile)).andThen fun _ =>
  (perform (.copy (join buildDir "aivcs-linux-arm64") (join tmp "aivcs-linux-arm64"))).andThen fun _ =>
  (perform (.copy (join buildDir "aivcs-linux-x86_64") (join tmp "aivcs-linux-amd64"))).andThen fun _ =>
  (runChecked (imageBuild tmp version "arm64") "docker build arm64").andThen fun _ =>
  (runChecked (imageBuild tmp version "amd64") "docker build amd64").andThen fun _ =>
  -- both tags are put on the image for arm64
  (runChecked (imageTag version version) "docker tag version").andThen fun _ =>
  runChecked (imageTag version "latest") "docker tag latest"

def ensureForgeConfigured : Step Unit :=
  (perform (.envVar "AIVCS_FORGE_URL")).bind fun url =>
  if url.isSome then lift (.ok ())
  else
  (perform (.envVar "HOME")).bind fun home =>
  -- without a home the path is relative
  (perform (.isFile (join (home.getD "") ".aivcs/config.json"))).bind fun inHome =>
  if inHome then lift (.ok ())
  else
  (perform (.envVar "AIVCS_HOME")).bind fun aivcsHome =>
  match aivcsHome with
  | none => lift (.error "forge URL not configured (AIVCS_FORGE_URL or ~/.aivcs/config.json)")
  | some path =>
      (perform (.isFile (join path "config.json"))).bind fun there =>
      if there then lift (.ok ())
      else lift (.error "forge URL not configured (AIVCS_FORGE_URL or ~/.aivcs/config.json)")

def forgePublish (root version : String) : Command where
  program := join root "target/release/aivcs"
  args := ["publish", "--repo", "aivcs/aivcs", "--branch", "main", "-m", "chore(release): v" ++ version, "."]
  dir := some root

/-! ## The release -/

/-- Gates 7 to 10. -/
def publish (opts : ReleaseOptions) (root version : String) (cleared : Cleared) : Step Unit :=
  (if opts.skipGithub then lift (.ok ())
    else publishGithubRelease opts ("v" ++ version) version cleared.notes).andThen fun _ =>
  (if opts.skipHomebrew then lift (.ok ()) else updateHomebrew opts version cleared.digests).andThen fun _ =>
  (writeInRepoFormula root version).andThen fun _ =>
  (if opts.dockerRelease && !opts.skipLinux then dockerImages opts.buildDir version
    else lift (.ok ())).andThen fun _ =>
  if opts.skipForge then lift (.ok ())
  else ensureForgeConfigured.andThen fun _ => runChecked (forgePublish root version) "aivcs publish"

def runRelease {N : Type} (env : Env N) (opts : ReleaseOptions) : Step Unit :=
  (lift (normalizeSemver opts.version)).andThen fun version =>
  (perform (.canonicalize opts.repoRoot)).bind fun canonical =>
  -- a root that cannot be looked up is taken as it is
  let root := canonical.getD opts.repoRoot
  (verifySemverLockstep env root version).andThen fun _ =>
  if opts.verifyOnly then lift (.ok ())
  else
  (buildBinaries opts root).andThen fun _ =>
  (checkBinaries env opts root version).andThen fun cleared =>
  publish opts root version cleared

end Pipeline
end Release
end Aivcs
