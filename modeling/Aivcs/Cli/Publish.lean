import Aivcs.Cli.Walk
import Aivcs.Forge.Handlers
import Aivcs.Lib.UrlPath

/-!
# Cli.Publish — `ForgeRemoteClient::publish` as a program over the forge's store

The client talks to the forge over HTTP; a request is answered by running its handler, so a client is
a `ForgeProc` too and its store calls are those of the handlers it reaches.  Left out: transport
failures and the statuses 429, 502, 503 and 504, which no handler answers with, so each retry loop of
the client runs once (or not at all when its retry count is zero).

The name of a branch goes into a URL as it is, so the handler may get another one (`branchRoute`).  Left out
there: the texts of the answers the framework gives itself, and the routes for no branch that dot segments
can lead to.

An error is its text, `context: cause` where the source adds a context.
-/

namespace Aivcs
namespace Cli

open Aivcs.Lib
open Aivcs.Forge

/-- The environment variables a client reads. -/
structure Client where
  /-- `AIVCS_FORGE_UPLOAD_RETRIES` -/
  uploadRetries : Nat
  /-- `AIVCS_FORGE_DOWNLOAD_RETRIES` -/
  downloadRetries : Nat
  /-- `AIVCS_FORGE_SKIP_EXISTING_BLOBS` -/
  skipExistingBlobs : Bool
  /-- `AIVCS_PUBLISH_FORCE` -/
  force : Bool

/-- The client when none of them is set. -/
def Client.default : Client :=
  { uploadRetries := 3, downloadRetries := 5, skipExistingBlobs := false, force := false }

/-- The arguments of a publish, and the order in which its concurrent uploads get their turns. -/
structure PublishArgs where
  tree : Tree
  repo : String
  message : String
  author : String
  branch : String
  isPrivate : Option Bool
  schedule : List Nat

/-! ## The branch of a URL -/

/-- The handler that a request for a branch reaches, with its parameters. -/
inductive BranchRoute where
  | branch (repo name : String)
  | invalidUtf8
  | noRoute
  deriving DecidableEq

/-- The URL of a branch after the address of the forge and a slash: the repository is encoded, the name of
the branch is not. -/
def branchUrl (repo branch : String) : Bytes :=
  utf8 "api/v1/repos/" ++
    (UrlPath.percentEncode (utf8 repo) ++ (utf8 "/branches/" ++ utf8 branch))

/-- The parameters in a path of `/api/v1/repos/:repo/branches/:branch`, or of the same with an owner. -/
def branchParams : List Bytes → Option (List Bytes)
  | [api, v1, repos, repo, branches, branch] =>
      if [api, v1, repos, branches] = ["api", "v1", "repos", "branches"].map utf8 ∧
          [repo, branch].all fun param => !param.isEmpty then
        some [repo, branch]
      else none
  | [api, v1, repos, owner, repo, branches, branch] =>
      if [api, v1, repos, branches] = ["api", "v1", "repos", "branches"].map utf8 ∧
          [owner, repo, branch].all fun param => !param.isEmpty then
        some [owner, repo, branch]
      else none
  | _ => none

def BranchRoute.ofParams : Option (List Bytes) → BranchRoute
  | none => .noRoute
  | some params =>
      match params.mapM fun param => ofUtf8? (UrlPath.percentDecode param) with
      | some [repo, name] => .branch repo name
      | some [owner, repo, name] => .branch (owner ++ "/" ++ repo) name
      | _ => .invalidUtf8

/-- What the router makes of the URL of a branch. -/
def branchRoute (repo branch : String) : BranchRoute :=
  .ofParams (branchParams (UrlPath.pathSegments (branchUrl repo branch)))

/-- A request for a branch. -/
def requestBranch (repo branch : String) (handler : String → String → ForgeProc Response) :
    ForgeProc Response :=
  match branchRoute repo branch with
  | .branch repo name => handler repo name
  | .invalidUtf8 => return { status := .badRequest, body := .blob [] }
  | .noRoute => return { status := .notFound, body := .blob [] }

/-- A name that is one segment of a URL and comes back as it is. -/
structure PlainBranch (branch : String) : Prop where
  nonempty : utf8 branch ≠ []
  bytes : ∀ b ∈ utf8 branch, UrlPath.isDropped b = false ∧ UrlPath.endsPath b = false ∧ b ≠ 92 ∧ b ≠ 47
  last : ∀ b, (utf8 branch).getLast? = some b → 32 < b
  no_dots : utf8 branch ∉ UrlPath.singleDots ∧ utf8 branch ∉ UrlPath.doubleDots
  no_escape : UrlPath.percentDecode (utf8 branch) = utf8 branch

namespace PlainBranch

variable {branch : String}

theorem isPath (h : PlainBranch branch) (repo : String) : UrlPath.IsPath (branchUrl repo branch) where
  bytes b hb := by
    have hfixed : ∀ c ∈ utf8 "api/v1/repos/" ++ utf8 "/branches/",
        UrlPath.isDropped c = false ∧ UrlPath.endsPath c = false ∧ c ≠ 92 := by
      decide +kernel
    rcases List.mem_append.1 hb with hb | hb
    · exact hfixed b (List.mem_append_left _ hb)
    · rcases List.mem_append.1 hb with hb | hb
      · obtain ⟨hdropped, hends, hback, -⟩ := UrlPath.of_mem_percentEncode hb
        exact ⟨hdropped, hends, hback⟩
      · rcases List.mem_append.1 hb with hb | hb
        · exact hfixed b (List.mem_append_right _ hb)
        · obtain ⟨hdropped, hends, hback, -⟩ := h.bytes b hb
          exact ⟨hdropped, hends, hback⟩
  last b hb := by
    rw [branchUrl, ← List.append_assoc, ← List.append_assoc, List.getLast?_append_of_ne_nil _ h.nonempty] at hb
    exact h.last b hb

theorem splitOn_branchUrl (h : PlainBranch branch) (repo : String) :
    (branchUrl repo branch).splitOn 47 =
      [utf8 "api", utf8 "v1", utf8 "repos", UrlPath.percentEncode (utf8 repo), utf8 "branches", utf8 branch] := by
  have hfixed : utf8 "api/v1/repos/" = utf8 "api" ++ 47 :: (utf8 "v1" ++ 47 :: (utf8 "repos" ++ [47])) ∧
      utf8 "/branches/" = 47 :: (utf8 "branches" ++ [47]) := by
    decide +kernel
  have hwords : 47 ∉ utf8 "api" ∧ 47 ∉ utf8 "v1" ∧ 47 ∉ utf8 "repos" ∧ 47 ∉ utf8 "branches" := by
    decide +kernel
  obtain ⟨hapi, hv1, hrepos, hbranches⟩ := hwords
  have hrepo : 47 ∉ UrlPath.percentEncode (utf8 repo) := fun hmem =>
    (UrlPath.of_mem_percentEncode hmem).2.2.2 rfl
  have hbranch : 47 ∉ utf8 branch := fun hmem => (h.bytes 47 hmem).2.2.2 rfl
  rw [branchUrl, hfixed.1, hfixed.2]
  simp only [List.append_assoc, List.cons_append, List.nil_append]
  rw [List.splitOn_append_cons_self_of_not_mem hapi, List.splitOn_append_cons_self_of_not_mem hv1,
    List.splitOn_append_cons_self_of_not_mem hrepos, List.splitOn_append_cons_self_of_not_mem hrepo,
    List.splitOn_append_cons_self_of_not_mem hbranches, List.splitOn_eq_singleton hbranch]

/-- The repository may be one of dots, which lead up; any other is a segment of its own. -/
theorem pathSegments_eq (h : PlainBranch branch) (repo : String) :
    UrlPath.pathSegments (branchUrl repo branch) ∈
      [[utf8 "api", utf8 "v1", utf8 "branches", utf8 branch],
        [utf8 "api", utf8 "v1", utf8 "repos", utf8 "branches", utf8 branch],
        [utf8 "api", utf8 "v1", utf8 "repos", UrlPath.percentEncode (utf8 repo), utf8 "branches",
          utf8 branch]] := by
  have hwords : ∀ w ∈ ["api", "v1", "repos", "branches"],
      utf8 w ∉ UrlPath.singleDots ∧ utf8 w ∉ UrlPath.doubleDots := by
    decide +kernel
  have hname : ∀ w ∈ ["api", "v1", "repos", "branches"], ∀ dir segments,
      UrlPath.follow dir (utf8 w :: segments) = UrlPath.follow (utf8 w :: dir) segments :=
    fun w hw dir segments => UrlPath.follow_name (hwords w hw).1 (hwords w hw).2
  have hend : ∀ dir, UrlPath.follow dir [utf8 branch] = utf8 branch :: dir := fun dir =>
    UrlPath.follow_name h.no_dots.1 h.no_dots.2
  rw [UrlPath.pathSegments_eq (h.isPath repo), h.splitOn_branchUrl repo,
    hname "api" (by simp), hname "v1" (by simp), hname "repos" (by simp)]
  by_cases hdouble : UrlPath.percentEncode (utf8 repo) ∈ UrlPath.doubleDots
  · rw [UrlPath.follow, if_pos hdouble, if_neg (List.cons_ne_nil _ _), hname "branches" (by simp), hend]
    exact List.mem_cons_self
  · by_cases hsingle : UrlPath.percentEncode (utf8 repo) ∈ UrlPath.singleDots
    · rw [UrlPath.follow, if_neg hdouble, if_pos hsingle, if_neg (List.cons_ne_nil _ _),
        hname "branches" (by simp), hend]
      exact List.mem_cons_of_mem _ List.mem_cons_self
    · rw [UrlPath.follow_name hsingle hdouble, hname "branches" (by simp), hend]
      exact List.mem_cons_of_mem _ (List.mem_cons_of_mem _ List.mem_cons_self)

/-- A plain name reaches the handlers as it is, if the path is one of a branch at all. -/
theorem branchRoute_eq (h : PlainBranch branch) (repo : String) :
    branchRoute repo branch = .branch repo branch ∨ branchRoute repo branch = .noRoute := by
  have hpath := h.pathSegments_eq repo
  rw [branchRoute]
  generalize UrlPath.pathSegments (branchUrl repo branch) = segments at hpath
  simp only [List.mem_cons, List.not_mem_nil, or_false] at hpath
  rcases hpath with rfl | rfl | rfl
  · exact .inr rfl
  · exact .inr rfl
  · by_cases hempty : UrlPath.percentEncode (utf8 repo) = []
    · simp [branchParams, hempty, BranchRoute.ofParams]
    · simp [branchParams, hempty, h.nonempty, BranchRoute.ofParams,
        UrlPath.percentDecode_percentEncode, h.no_escape]

end PlainBranch

/-! ## Reading the forge -/

/-- `resolve_branch_optional`; with no attempt at all the source's loop reaches `unreachable!`. -/
def resolveBranchOptional (client : Client) (repo branch : String) :
    ForgeProc (Except String (Option String)) := do
  if client.downloadRetries = 0 then
    return .error "branch retry loop always returns"
  else
    let resp ← requestBranch repo branch getBranch
    if resp.status = .notFound then
      return .ok none
    else if !resp.status.isSuccess then
      return .error ("branch lookup failed for '" ++ branch ++ "' in repository '" ++ repo ++
        "' (HTTP " ++ resp.status.toString ++ ")")
    else
      match resp.body with
      | .branch _ _ head => return .ok (some head)
      | _ => return .error "Failed to parse branch resolution response"

/-- `fetch_manifest_direct`. -/
def fetchManifestDirect (repo commitId : String) :
    ForgeProc (Except String (List ManifestEntry)) := do
  let resp ← getCommitManifest repo commitId
  if !resp.status.isSuccess then
    return .error ("manifest for commit '" ++ commitId ++ "' not found (HTTP " ++
      resp.status.toString ++ ")")
  else
    match resp.body with
    | .manifest entries => return .ok entries
    | _ => return .error "parse manifest response"

/-- `commit_exists`. -/
def commitExists (repo commitId : String) : ForgeProc Bool := do
  let resp ← getCommit repo commitId
  return resp.status.isSuccess

/-- `blob_exists`. -/
def blobExists (digest : String) : ForgeProc Bool := do
  let resp ← getBlob digest
  return resp.status.isSuccess

/-! ## Which blobs to send -/

/-- `dedupe_blobs_by_digest`: the first entry of each digest that was not seen before. -/
def dedupeBlobsByDigest : List String → List ManifestEntry → List ManifestEntry
  | _, [] => []
  | seen, e :: manifest =>
      if e.digest ∈ seen then
        dedupeBlobsByDigest seen manifest
      else
        e :: dedupeBlobsByDigest (e.digest :: seen) manifest

/-- `blobs_to_upload`. -/
def blobsToUpload (manifest : List ManifestEntry) (parentDigests : List String) :
    List ManifestEntry :=
  (dedupeBlobsByDigest [] manifest).filter fun e => !parentDigests.contains e.digest

/-- `parent_digests`. -/
def parentDigests (repo parentHead : String) : ForgeProc (Except String (List String)) := do
  match ← fetchManifestDirect repo parentHead with
  | .error e => return .error e
  | .ok manifest => return .ok ((dedupeBlobsByDigest [] manifest).map ManifestEntry.digest)

/-! ## Writing to the forge -/

/-- `post_blob_with_retry`. -/
def postBlob (data : Bytes) (path : String) : ForgeProc (Except String Unit) := do
  let resp ← putBlob data
  if resp.status.isSuccess || resp.status = .conflict then
    return .ok ()
  else
    return .error ("blob upload for '" ++ path ++ "' failed: HTTP " ++ resp.status.toString ++
      ": " ++ resp.text)

/-- Read the file again and send it. -/
def sendFile (tree : Tree) (e : ManifestEntry) : ForgeProc (Except String Unit) := do
  match tree.readFile e.path with
  | none => return .error ("async read local file " ++ e.path)
  | some data => postBlob data e.path

/-- One task of `upload_blobs`. -/
def uploadBlob (client : Client) (tree : Tree) (e : ManifestEntry) :
    ForgeProc (Except String Unit) := do
  if client.skipExistingBlobs then
    if ← blobExists e.digest then
      return .ok ()
    else
      sendFile tree e
  else
    sendFile tree e

/-- The first failure of the tasks. -/
def joinResults : List (Except String Unit) → Except String Unit
  | [] => .ok ()
  | .error e :: _ => .error e
  | .ok () :: results => joinResults results

/-- `upload_blobs`: one concurrent task per entry. -/
def uploadBlobs (client : Client) (args : PublishArgs) (entries : List ManifestEntry) :
    ForgeProc (Except String Unit) := do
  let results ← Proc.par args.schedule (entries.map (uploadBlob client args.tree))
  return joinResults results

/-- `expected_commit_id`. -/
def expectedCommitId (D : Deployment) (req : CreateCommitRequest) : String :=
  identityDigest D (identity D req.repo (treeDigest D req.manifest) req.manifest req.parents
    req.message req.author)

/-- `post_commit`: a commit that is refused but there already will do. -/
def postCommit (D : Deployment) (client : Client) (req : CreateCommitRequest) :
    ForgeProc (Except String String) := do
  if client.uploadRetries = 0 then
    if ← commitExists req.repo (expectedCommitId D req) then
      return .ok (expectedCommitId D req)
    else
      return .error "commit POST failed after 0 attempts"
  else
    let resp ← createCommit D req
    if resp.status.isSuccess then
      match resp.body with
      | .createCommit commitId _ => return .ok commitId
      | _ => return .error "parse commit response"
    else
      if ← commitExists req.repo (expectedCommitId D req) then
        return .ok (expectedCommitId D req)
      else
        return .error ("commit POST failed: HTTP " ++ resp.status.toString ++ ": " ++ resp.text)

/-- The precondition `update_branch` sends. -/
def branchPayload (client : Client) (commitId : String) (expected : Option String) :
    UpdateBranchRequest :=
  if client.force then
    { commitId := commitId, expectedHead := none, expectAbsent := false }
  else
    match expected with
    | some head => { commitId := commitId, expectedHead := some head, expectAbsent := false }
    | none => { commitId := commitId, expectedHead := none, expectAbsent := true }

/-- `update_branch` of the client. -/
def moveBranch (D : Deployment) (client : Client) (repo branch commitId : String)
    (expected : Option String) : ForgeProc (Except String Unit) := do
  let resp ← requestBranch repo branch fun repo name =>
    updateBranch D repo name (branchPayload client commitId expected)
  if resp.status = .conflict then
    let actual := match resp.body with
      | .branchConflict _ _ _ _ (some head) => head
      | _ => "unknown"
    return .error ("branch '" ++ branch ++ "' moved while this publish was running.\n  " ++
      "expected head: " ++ expected.getD "(new branch)" ++ "\n  actual head:   " ++ actual ++
      "\nNothing was written. Re-fetch the branch, restage your files onto " ++
      "the new head, and publish again. Blobs already uploaded are reused.")
  else if !resp.status.isSuccess then
    return .error ("branch PUT failed: HTTP " ++ resp.status.toString ++ ": " ++ resp.text)
  else
    return .ok ()

/-! ## Publishing -/

/-- Step 1 of `publish`: the head to publish onto, creating the repository if there is none. -/
def resolveParent (D : Deployment) (client : Client) (args : PublishArgs) :
    ForgeProc (Except String (Option String)) := do
  match ← resolveBranchOptional client args.repo args.branch with
  | .error e => return .error ("resolve parent branch before publish: " ++ e)
  | .ok (some head) => return .ok (some head)
  | .ok none =>
      let resp ← createRepo D
        { repo := some args.repo, name := none, org := none, isPrivate := args.isPrivate }
      if !resp.status.isSuccess && resp.status ≠ .conflict then
        return .error ("repo create failed: HTTP " ++ resp.status.toString ++ ": " ++ resp.text)
      else
        -- `create_repo` makes `main` only, so another branch is still absent here.
        resolveBranchOptional client args.repo args.branch

/-- The digests step 2 does not upload; a manifest that cannot be read confers none. -/
def inheritedFromParent (repo : String) : Option String → ForgeProc (List String)
  | none => return []
  | some head => do
      match ← parentDigests repo head with
      | .ok digests => return digests
      | .error _ => return []

/-- The commit a publish posts: the head that was read is its only parent. -/
def commitRequest (args : PublishArgs) (manifest : List ManifestEntry)
    (parentHead : Option String) : CreateCommitRequest :=
  { repo := args.repo
    manifest := manifest
    parents := parentHead.toList
    message := args.message
    author := args.author }

/-- Step 3: post the commit, then move the branch if it is still where it was read. -/
def commitAndMove (D : Deployment) (client : Client) (args : PublishArgs)
    (manifest : List ManifestEntry) (parentHead : Option String) :
    ForgeProc (Except String String) := do
  match ← postCommit D client (commitRequest args manifest parentHead) with
  | .error e => return .error ("commit POST failed: " ++ e)
  | .ok commitId =>
      match ← moveBranch D client args.repo args.branch commitId parentHead with
      | .error e => return .error ("branch PUT failed: " ++ e)
      | .ok () => return .ok commitId

/-- Steps 2 and 3 of `publish`, once the parent is known. -/
def publishOnto (D : Deployment) (client : Client) (args : PublishArgs)
    (manifest : List ManifestEntry) (parentHead : Option String) :
    ForgeProc (Except String String) := do
  let inherited ← inheritedFromParent args.repo parentHead
  match ← uploadBlobs client args (blobsToUpload manifest inherited) with
  | .error e => return .error e
  | .ok () => commitAndMove D client args manifest parentHead

/-- `ForgeRemoteClient::publish`. -/
def publish (D : Deployment) (client : Client) (args : PublishArgs) :
    ForgeProc (Except String String) := do
  let manifest := walkManifest D args.tree
  if manifest.isEmpty then
    return .error "refusing to publish empty tree"
  else
    match ← resolveParent D client args with
    | .error e => return .error e
    | .ok parentHead => publishOnto D client args manifest parentHead

end Cli
end Aivcs
