import Aivcs.Forge.Source

/-!
# Forge.Handlers — the request handlers behind `router_with`

Every handler is a program over the `ForgeStore` interface; the texts and statuses of the answers are
those of the source.  Left out: the `server-timing` headers of `timed_response` and the decoding of
request bodies (a body that is not the expected JSON never reaches a handler).
-/

namespace Aivcs
namespace Forge

open Aivcs.Lib

/-! ## Requests and responses -/

structure CreateRepoRequest where
  repo : Option String
  name : Option String
  org : Option String
  isPrivate : Option Bool

structure CreateCommitRequest where
  repo : String
  manifest : List ManifestEntry
  parents : List String
  message : String
  author : String

structure AtomicPublishRequest where
  repo : String
  blobs : List Bytes
  commit : CommitRecord
  branchUpdates : List (String × String)

structure UpdateBranchRequest where
  commitId : String
  expectedHead : Option String
  expectAbsent : Bool

structure CommitPayload where
  message : String
  blobHash : String

/-- Response bodies, one constructor per shape the handlers answer with. -/
inductive Body
  | error (message : String)
  | putBlob (digest : String)
  | blob (bytes : Bytes)
  | createCommit (commitId treeDigest : String)
  | publish (result : AtomicPublishResult)
  | manifest (entries : List ManifestEntry)
  | commit (commitId repo treeDigest : String) (parents : List String) (message author : String)
  | branch (repo branch headCommitId : String)
  | branchConflict (error repo branch : String) (expectedHead actualHead : Option String)
  | createRepo (repo uri headCommitId : String)
  | repo (repo uri defaultBranch headCommitId : String)
  /-- A tar stream of the entries, with its `x-aivcs-commit`, `ETag` and `Cache-Control` headers. -/
  | source (entries : List ManifestEntry) (commitId etag cacheControl : String)
  | commitStored (status uri : String)
  | commits
  deriving DecidableEq

structure Response where
  status : StatusCode
  body : Body
  deriving DecidableEq

/-- `err`: the one error shape of the service. -/
def err (status : StatusCode) (message : String) : Response :=
  { status := status, body := .error message }

/-- The text of an error response; the other bodies are never read as a text. -/
def Response.text (r : Response) : String :=
  match r.body with
  | .error message => (ofUtf8? (Json.obj [("error", .str message)]).render).getD ""
  | _ => ""

def internalError (e : ForgeError) : Response :=
  err .internalServerError e.toString

def defaultBranch : String := "main"

/-! ## Repositories -/

/-- One `/`-separated segment of a repository id is a DNS label. -/
def validSegment (s : Bytes) : Bool :=
  !s.isEmpty && s.length ≤ 63 && s.head? != some 45 && s.getLast? != some 45 &&
    s.all fun b => (97 ≤ b && b ≤ 122) || (48 ≤ b && b ≤ 57) || b = 45

/-- `valid_repo`. -/
def validRepo (repo : String) : Bool :=
  let segments := (utf8 repo).splitOn 47
  1 ≤ segments.length && segments.length ≤ 2 && segments.all validSegment

/-- The repository id of a create request: `repo` if given, else composed from `org` and `name`. -/
def CreateRepoRequest.repoId (req : CreateRepoRequest) : Option String :=
  match req.repo with
  | some repo =>
      if repo ≠ "" then some repo else fromName
  | none => fromName
where
  fromName : Option String :=
    match req.name with
    | some name => if name ≠ "" then some (req.org.getD "aivcs" ++ "/" ++ name) else none
    | none => none

/-- The empty root commit of a repository. -/
def rootCommit (D : Deployment) (repo : String) : CommitRecord :=
  let tree := treeDigest D []
  { repo := repo
    commitId := identityDigest D (identity D repo tree [] [] "init" "aivcsd")
    treeDigest := tree
    manifest := []
    parents := []
    message := "init"
    author := "aivcsd" }

/-- The half of `create_repo` for a repository that already has a `main` branch. -/
def createExistingRepo (repo head : String) (isPrivate : Option Bool) : ForgeProc Response := do
  match isPrivate with
  | none => return { status := .ok, body := .createRepo repo ("aivcs://" ++ repo) head }
  | some isPrivate =>
      match ← ForgeStore.setRepoPrivate repo isPrivate with
      | .error e => return internalError e
      | .ok () => return { status := .ok, body := .createRepo repo ("aivcs://" ++ repo) head }

/-- The fresh half of `create_repo`: visibility, root commit, then `main` without a precondition. -/
def createFreshRepo (D : Deployment) (repo : String) (isPrivate : Bool) : ForgeProc Response := do
  match ← ForgeStore.setRepoPrivate repo isPrivate with
  | .error e => return internalError e
  | .ok () =>
      let commit := rootCommit D repo
      match ← ForgeStore.putCommit commit with
      | .error e => return internalError e
      | .ok () =>
          match ← ForgeStore.setBranch repo defaultBranch commit.commitId with
          | .error e => return internalError e
          | .ok () =>
              return { status := .created
                       body := .createRepo repo ("aivcs://" ++ repo) commit.commitId }

/-- `create_repo`. -/
def createRepo (D : Deployment) (req : CreateRepoRequest) : ForgeProc Response := do
  match req.repoId with
  | none => return err .badRequest "name or repo is required"
  | some repo =>
      if !validRepo repo then
        return err .unprocessableEntity
          ("repo must be a single DNS label (1-63 lowercase letters, digits, or hyphens; " ++
            "no leading/trailing hyphen)")
      else
        match ← ForgeStore.getBranch repo defaultBranch with
        | .error e => return internalError e
        | .ok (some head) => createExistingRepo repo head req.isPrivate
        -- From here on the branch is taken to be absent, although it is written in a later call.
        | .ok none => createFreshRepo D repo (req.isPrivate.getD true)

/-- `get_repo`. -/
def getRepo (repo : String) : ForgeProc Response := do
  match ← ForgeStore.getBranch repo defaultBranch with
  | .ok (some head) =>
      return { status := .ok, body := .repo repo ("aivcs://" ++ repo) defaultBranch head }
  | .ok none => return err .notFound ("repo not found: " ++ repo)
  | .error e => return internalError e

/-! ## Blobs -/

/-- `put_blob`. -/
def putBlob (bytes : Bytes) : ForgeProc Response := do
  match ← ForgeStore.putBlob bytes with
  | .ok digest => return { status := .created, body := .putBlob digest }
  | .error e => return internalError e

/-- `get_blob`. -/
def getBlob (digest : String) : ForgeProc Response := do
  match ← ForgeStore.getBlob digest with
  | .ok (some bytes) => return { status := .ok, body := .blob bytes }
  | .ok none => return err .notFound ("blob not found: " ++ digest)
  | .error e => return internalError e

/-! ## Commits -/

/-- The digests of the known parents' manifests; an unknown parent confers nothing. -/
def inheritedDigests (repo : String) : List String → ForgeProc (Except ForgeError (List String))
  | [] => return .ok []
  | parentId :: parents => do
      match ← ForgeStore.getCommit repo parentId with
      | .error e => return .error e
      | .ok parent =>
          -- The parents are read in order, before any digest is looked up.
          match ← inheritedDigests repo parents with
          | .error e => return .error e
          | .ok rest =>
              match parent with
              | some parent => return .ok (parent.manifest.map ManifestEntry.digest ++ rest)
              | none => return .ok rest

/-- The digests of a manifest that are neither inherited nor seen before. -/
def freshDigests (inherited : List String) : List String → List ManifestEntry → List String
  | _, [] => []
  | seen, e :: manifest =>
      if e.digest ∈ inherited ∨ e.digest ∈ seen then
        freshDigests inherited seen manifest
      else
        e.digest :: freshDigests inherited (e.digest :: seen) manifest

/-- `digests_requiring_validation`. -/
def digestsRequiringValidation (repo : String) (parents : List String)
    (manifest : List ManifestEntry) : ForgeProc (Except ForgeError (List String)) := do
  match ← inheritedDigests repo parents with
  | .error e => return .error e
  | .ok inherited => return .ok (freshDigests inherited [] manifest)

/-- The record `create_commit_inner` reads back out of the identity it has just hashed. -/
def commitOfIdentity (D : Deployment) (identity : Json) : CommitRecord :=
  { repo := ((identity.field? "repo").bind Json.asStr?).getD ""
    commitId := identityDigest D identity
    treeDigest := ((identity.field? "tree_digest").bind Json.asStr?).getD ""
    manifest := ((identity.field? "manifest").bind manifestOfValue?).getD []
    parents := ((identity.field? "parents").bind stringsOfValue?).getD []
    message := ((identity.field? "message").bind Json.asStr?).getD ""
    author := ((identity.field? "author").bind Json.asStr?).getD "" }

/-- The tail of `create_commit_inner`: derive the id, store the record. -/
def storeCommit (D : Deployment) (req : CreateCommitRequest) : ForgeProc Response := do
  let commit := commitOfIdentity D
    (identity D req.repo (treeDigest D req.manifest) req.manifest req.parents req.message
      req.author)
  match ← ForgeStore.putCommit commit with
  | .error e => return internalError e
  | .ok () =>
      return { status := .created, body := .createCommit commit.commitId commit.treeDigest }

/-- `create_commit_inner`. -/
def createCommit (D : Deployment) (req : CreateCommitRequest) : ForgeProc Response := do
  match ← digestsRequiringValidation req.repo req.parents req.manifest with
  | .error e => return internalError e
  | .ok digests =>
      match ← ForgeStore.existsAll digests with
      | .error e => return internalError e
      | .ok found =>
          match (digests.zip found).find? fun p => !p.2 with
          | some (digest, _) =>
              match req.manifest.find? fun e => e.digest = digest with
              | some e =>
                  return err .unprocessableEntity
                    ("blob not in CAS for " ++ e.path ++ ": " ++ e.digest)
              -- `expect`: a validated digest always comes from the manifest.
              | none => return err .internalServerError "validated digest came from manifest"
          | none => storeCommit D req

/-- `publish_atomic`. -/
def publishAtomic (req : AtomicPublishRequest) : ForgeProc Response := do
  if req.commit.repo ≠ req.repo then
    return err .unprocessableEntity "commit.repo must match request repo"
  else
    match ← ForgeStore.atomicPublish req.repo req.blobs req.commit req.branchUpdates with
    | .ok result => return { status := .created, body := .publish result }
    | .error (.missingBlob path digest) =>
        return err .unprocessableEntity
          ("blob not found for " ++ path ++ ": " ++ digest ++
            " (all-or-nothing validation — nothing written)")
    | .error e => return internalError e

/-- `get_commit_manifest`. -/
def getCommitManifest (repo commitId : String) : ForgeProc Response := do
  match ← ForgeStore.getCommit repo commitId with
  | .ok (some c) => return { status := .ok, body := .manifest c.manifest }
  | .ok none => return err .notFound ("commit not found: " ++ commitId)
  | .error e => return internalError e

/-- `get_commit`. -/
def getCommit (repo commitId : String) : ForgeProc Response := do
  match ← ForgeStore.getCommit repo commitId with
  | .ok (some c) =>
      return { status := .ok
               body := .commit c.commitId c.repo c.treeDigest c.parents c.message c.author }
  | .ok none => return err .notFound ("commit not found: " ++ commitId)
  | .error e => return internalError e

/-- The one-entry manifest `post_commit_repo` makes up for a source archive. -/
def archiveManifest (blobHash : String) : List ManifestEntry :=
  [{ path := "source.tar.gz", digest := blobHash, executable := false, size := 0 }]

/-- The record `post_commit_repo` stores. -/
def archiveCommit (D : Deployment) (repo : String) (payload : CommitPayload) : CommitRecord :=
  let manifest := archiveManifest payload.blobHash
  let tree := treeDigest D manifest
  { repo := repo
    commitId := identityDigest D (identity D repo tree manifest [] payload.message "agent")
    treeDigest := tree
    manifest := manifest
    parents := []
    message := payload.message
    author := "agent" }

/-- `post_commit_repo`: unlike `create_commit` it never asks whether the blob is stored. -/
def postCommitRepo (D : Deployment) (owner repo : String) (payload : CommitPayload) :
    ForgeProc Response := do
  let repoName := owner ++ "/" ++ repo
  match ← ForgeStore.putCommit (archiveCommit D repoName payload) with
  | .error e => return internalError e
  | .ok () =>
      return { status := .created
               body := .commitStored "success" ("aivcs://" ++ repoName ++ "@" ++ payload.blobHash) }

/-! ## Branches -/

/-- `update_branch_inner`. -/
def updateBranch (D : Deployment) (repo branch : String) (req : UpdateBranchRequest) :
    ForgeProc Response := do
  match ← ForgeStore.getCommit repo req.commitId with
  | .error e => return internalError e
  | .ok none =>
      return err .unprocessableEntity ("commit not found in " ++ repo ++ ": " ++ req.commitId)
  | .ok (some _) =>
      -- The commit must be one of this very repository before any precondition is looked at.
      if req.expectAbsent && req.expectedHead.isSome then
        return err .unprocessableEntity "expected_head and expect_absent are mutually exclusive"
      else if req.expectAbsent || req.expectedHead.isSome then
        match ← ForgeStore.casSetBranch repo branch req.expectedHead req.commitId with
        | .error e => return internalError e
        | .ok true => return { status := .ok, body := .branch repo branch req.commitId }
        | .ok false =>
            -- Only for the text of the answer; the branch may have moved again.
            let actual ← ForgeStore.getBranch repo branch
            let actual := match actual with
              | .ok head => head
              | .error _ => none
            return { status := .conflict
                     body := .branchConflict
                       ("branch '" ++ branch ++ "' moved since it was read; re-fetch and restage")
                       repo branch req.expectedHead actual }
      else if D.requireCas then
        return err .preconditionRequired
          ("this forge requires expected_head or expect_absent on branch updates " ++
            "(FORGE_REQUIRE_CAS); upgrade the client or re-read the head first")
      else
        match ← ForgeStore.setBranch repo branch req.commitId with
        | .error e => return internalError e
        | .ok () => return { status := .ok, body := .branch repo branch req.commitId }

/-- `get_branch`. -/
def getBranch (repo branch : String) : ForgeProc Response := do
  match ← ForgeStore.getBranch repo branch with
  | .ok (some head) => return { status := .ok, body := .branch repo branch head }
  | .ok none => return err .notFound ("branch not found: " ++ repo ++ "/" ++ branch)
  | .error e => return internalError e

/-! ## Source archives -/

/-- `get_repo_source` up to the point where the body starts to stream (`sourceBody`). -/
def getRepoSource (D : Deployment) (repo : String) (ref : Option String) : ForgeProc Response := do
  let want := ref.getD defaultBranch
  match ← ForgeStore.getBranch repo want with
  | .error e => return internalError e
  | .ok head =>
      -- Branch first, then treat it as a commit id.
      let commitId := head.getD want
      match ← ForgeStore.getCommit repo commitId with
      | .error e => return internalError e
      | .ok none => return err .notFound ("ref not found in " ++ repo ++ ": " ++ want)
      | .ok (some commit) =>
          match preflightSource D commit with
          | .error (code, msg) => return err code msg
          | .ok entries =>
              return { status := .ok
                       body := .source entries commit.commitId ("\"" ++ commit.treeDigest ++ "\"")
                         (if want = commit.commitId then "public, max-age=31536000, immutable"
                          else "no-cache") }

end Forge
end Aivcs
