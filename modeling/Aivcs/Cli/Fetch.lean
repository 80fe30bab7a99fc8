import Aivcs.Cli.Publish

/-!
# Cli.Fetch — `ForgeRemoteClient::fetch`: a commit's manifest materialised into a directory

The manifest is checked and compared with the directory first, then each digest is downloaded once
and written to all paths that need it.  The downloads run concurrently and their order is that of a
hash map; an `Arrangement` is the order in which they are taken in.  (A download only reads the
forge, so what it answers does not depend on when it was started.)

The texts of operating system errors and the debug quoting of paths are not modelled, nor is the
absolute path of the output directory: a destination is its components below the root.
-/

namespace Aivcs
namespace Cli

open Aivcs.Lib
open Aivcs.Forge

/-- An order in which the members of a collection may be met. -/
structure Arrangement (α : Type) where
  arrange : List α → List α
  perm : ∀ xs, (arrange xs).Perm xs

/-! ## Which commit -/

def isHexDigit (b : UInt8) : Bool :=
  (48 ≤ b && b ≤ 57) || (65 ≤ b && b ≤ 70) || (97 ≤ b && b ≤ 102)

/-- A reference `fetch` takes for a commit id: 64 ASCII hexadecimal digits. -/
def isCommitRef (gitRef : String) : Bool :=
  (utf8 gitRef).length = 64 && (utf8 gitRef).all isHexDigit

/-- `resolve_branch`. -/
def resolveBranch (client : Client) (repo branch : String) : ForgeProc (Except String String) := do
  match ← resolveBranchOptional client repo branch with
  | .error e => return .error e
  | .ok (some head) => return .ok head
  | .ok none =>
      return .error ("Branch '" ++ branch ++ "' not found for repository '" ++ repo ++ "'")

/-- The commit a reference stands for. -/
def resolveRef (client : Client) (repo gitRef : String) : ForgeProc (Except String String) :=
  if isCommitRef gitRef then
    return .ok gitRef
  else
    resolveBranch client repo gitRef

/-- `load_manifest`: the commit metadata carries no manifest, so it only confirms that the commit is
there. -/
def loadManifest (repo commitId : String) : ForgeProc (Except String (List ManifestEntry)) := do
  let direct ← fetchManifestDirect repo commitId
  let entries := match direct with
    | .ok entries => entries
    | .error _ => []
  if !entries.isEmpty then
    return .ok entries
  else
    let resp ← getCommit repo commitId
    if !resp.status.isSuccess then
      return .error ("commit '" ++ commitId ++ "' not found (HTTP " ++ resp.status.toString ++ ")")
    else
      match ← fetchManifestDirect repo commitId with
      | .ok entries => return .ok entries
      | .error e => return .error ("fetch commit manifest: " ++ e)

/-! ## Destinations -/

/-- `ensure_safe_repo_path`. -/
def ensureSafeRepoPath (path : String) : Except String Unit :=
  if path = "" ∨ path.toList.head? = some '/' ∨ '\\' ∈ path.toList then
    .error ("unsafe manifest path: " ++ path)
  else if (path.toList.splitOn '/').any fun c => c = ['.', '.'] then
    .error ("path traversal in manifest: " ++ path)
  else
    .ok ()

/-- The path text ends like that of a directory; the system does not open it as a file. -/
def namesDirectory (path : String) : Bool :=
  match (path.toList.splitOn '/').getLast? with
  | some c => c = [] || c = ['.']
  | none => true

/-- `file_matches_digest`. -/
def fileMatchesDigest (D : Deployment) (fs : Fs) (e : ManifestEntry) : Except String Bool :=
  match fs.read (pathComponents e.path) with
  | .ok bytes =>
      if namesDirectory e.path then .error ("read file '" ++ e.path ++ "'")
      else .ok (D.sha256Hex bytes = e.digest)
  | .error .notFound => .ok false
  | .error _ => .error ("read file '" ++ e.path ++ "'")

/-- The first loop of `fetch`: the entries to download, and how many are there already. -/
def planDownloads (D : Deployment) (fs : Fs) :
    List ManifestEntry → Except String (List ManifestEntry × Nat)
  | [] => .ok ([], 0)
  | e :: manifest =>
      match ensureSafeRepoPath e.path with
      | .error err => .error err
      | .ok () =>
          match fileMatchesDigest D fs e with
          | .error err => .error err
          | .ok found =>
              match planDownloads D fs manifest with
              | .error err => .error err
              | .ok (pending, reused) =>
                  if found then .ok (pending, reused + 1) else .ok (e :: pending, reused)

/-- `by_digest.entry(digest).or_default().push(..)`. -/
def pushGroup (e : ManifestEntry) :
    List (String × List ManifestEntry) → List (String × List ManifestEntry)
  | [] => [(e.digest, [e])]
  | (digest, entries) :: groups =>
      if digest = e.digest then
        (digest, entries ++ [e]) :: groups
      else
        (digest, entries) :: pushGroup e groups

def groupByDigest (pending : List ManifestEntry) : List (String × List ManifestEntry) :=
  pending.foldl (fun groups e => pushGroup e groups) []

/-! ## Downloads -/

/-- What `download_blob` makes of an answer; of the statuses it retries only 500 occurs. -/
def readDownload (digest : String) (again : ForgeProc (Except String Bytes)) (resp : Response) :
    ForgeProc (Except String Bytes) :=
  if resp.status.isSuccess then
    match resp.body with
    | .blob bytes => return .ok bytes
    | _ => return .error ("read blob bytes for digest " ++ digest)
  else if resp.status = .internalServerError then
    again
  else
    return .error ("blob missing: digest " ++ digest ++ " HTTP " ++ resp.status.toString)

/-- `download_blob`, with the retries that are left. -/
def downloadBlob (digest : String) : Nat → ForgeProc (Except String Bytes)
  | 0 => do
      let resp ← getBlob digest
      readDownload digest
        (return .error ("blob missing: digest " ++ digest ++ " HTTP " ++ resp.status.toString)) resp
  | retries + 1 => do
      let resp ← getBlob digest
      readDownload digest (downloadBlob digest retries) resp

/-- Write one entry: directories, content, mode. -/
def writeEntry (fs : Fs) (bytes : Bytes) (e : ManifestEntry) : Except String Unit × Fs :=
  if namesDirectory e.path then
    -- The directories are made before the write fails.
    match fs.createDirAll [] (pathComponents e.path).dropLast with
    | .error _ => (.error ("write file '" ++ e.path ++ "'"), fs)
    | .ok fs => (.error ("write file '" ++ e.path ++ "'"), fs)
  else
    match fs.place (pathComponents e.path) bytes e.executable with
    | (.error _, fs) => (.error ("write file '" ++ e.path ++ "'"), fs)
    | (.ok (), fs) => (.ok (), fs)

/-- Write one download to all its paths. -/
def writeEntries (fs : Fs) (bytes : Bytes) : List ManifestEntry → Except String Unit × Fs
  | [] => (.ok (), fs)
  | e :: entries =>
      match writeEntry fs bytes e with
      | (.error err, fs) => (.error err, fs)
      | (.ok (), fs) => writeEntries fs bytes entries

/-- The second loop of `fetch`: take the downloads in as they come. -/
def materialize (client : Client) :
    List (String × List ManifestEntry) → Fs → ForgeProc (Except String Unit × Fs)
  | [], fs => return (.ok (), fs)
  | (digest, entries) :: groups, fs => do
      match ← downloadBlob digest client.downloadRetries with
      | .error err => return (.error err, fs)
      | .ok bytes =>
          match writeEntries fs bytes entries with
          | (.error err, fs) => return (.error err, fs)
          | (.ok (), fs) => materialize client groups fs

/-- `fetch` once the manifest is there. -/
def fetchManifest (D : Deployment) (client : Client)
    (order : Arrangement (String × List ManifestEntry)) (commitId : String)
    (manifest : List ManifestEntry) (fs : Fs) : ForgeProc (Except String Unit × Fs) := do
  match fs.createDirAll [] [] with
  | .error _ => return (.error "create output directory", fs)
  | .ok fs =>
      match planDownloads D fs manifest with
      | .error err => return (.error err, fs)
      | .ok (pending, reused) =>
          match ← materialize client (order.arrange (groupByDigest pending)) fs with
          | (.error err, fs) => return (.error err, fs)
          | (.ok (), fs) =>
              if pending.length + reused = 0 then
                return (.error ("materialized zero files for commit '" ++ commitId ++
                  "' — forge returned a non-empty manifest but no blobs were written"), fs)
              else
                return (.ok (), fs)

/-- `ForgeRemoteClient::fetch`: the result and the directory it leaves behind. -/
def fetch (D : Deployment) (client : Client)
    (order : Arrangement (String × List ManifestEntry)) (repo gitRef : String) (fs : Fs) :
    ForgeProc (Except String Unit × Fs) := do
  match ← resolveRef client repo gitRef with
  | .error err => return (.error err, fs)
  | .ok commitId =>
      match ← loadManifest repo commitId with
      | .error err => return (.error err, fs)
      | .ok manifest =>
          if manifest.isEmpty then
            return (.error ("commit '" ++ commitId ++
              "' has empty manifest — refusing to materialize phantom repo"), fs)
          else
            fetchManifest D client order commitId manifest fs

end Cli
end Aivcs
