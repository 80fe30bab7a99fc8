import Aivcs.Lib.Text
import Aivcs.State.Types

/-!
# Git.Remote — repository identities from remotes, and the repository of an event

`parse_git_remote` reads `owner/repo`, or a nested path of GitLab, from the URL of a remote;
`maybe_emit_code_committed_from_env` names the repository of the event it emits.  GitHub names are checked
as they stand.  For GitLab paths and for the override of an event the check drops surrounding spaces and
slashes and empty segments, and what has passed it is used with them.
-/

namespace Aivcs
namespace Git

open Lib State

inductive GitHost where
  | gitHub
  | gitLab
  deriving DecidableEq

/-! ## Segments and paths -/

/-- `u8::is_ascii_alphanumeric`. -/
def isAlnum (c : Char) : Bool :=
  ('a' ≤ c && c ≤ 'z') || ('A' ≤ c && c ≤ 'Z') || ('0' ≤ c && c ≤ '9')

def isNameChar (c : Char) : Bool :=
  isAlnum c || c = '.' || c = '_' || c = '-'

/-- One to a hundred of the characters, the first and the last a letter or a digit.  Each of them is one
byte. -/
def isName (value : List Char) : Bool :=
  !value.isEmpty && value.length ≤ 100 && value.head?.any isAlnum && value.getLast?.any isAlnum &&
    value.all isNameChar

def isValidForgeSegment (value : List Char) : Bool :=
  isName value

def isValidGithubName (value : List Char) : Bool :=
  isName value

def isOwnerRepo (value : List Char) : Bool :=
  match splitOnce '/' value with
  | some (owner, repo) => !repo.contains '/' && isValidGithubName owner && isValidGithubName repo
  | none => false

/-- `value.trim().trim_matches('/')`. -/
def trimPath (value : List Char) : List Char :=
  trimBoth (fun c => c = '/') (trimBoth isWhitespace value)

def isForgeProjectPath (value : List Char) : Bool :=
  let value := trimPath value
  -- The bound is on bytes.  A text with more bytes than characters has a segment that is not valid.
  if value.isEmpty || 200 < value.length then false
  else
    let segments := (value.splitOn '/').filter fun s => !s.isEmpty
    if segments.length < 2 then false else segments.all isValidForgeSegment

/-! ## Remotes -/

def githubPrefixes : List String :=
  ["git@github.com:", "aivcs://", "ssh://git@github.com/"]

def gitlabPrefixes : List String :=
  ["git@gitlab.com:", "https://gitlab.com/", "ssh://git@gitlab.com/"]

/-- `strip_prefix` with the first prefix that is there. -/
def stripAny (prefixes : List String) (remote : List Char) : Option (List Char) :=
  prefixes.findSome? fun front => remote.dropPrefix? front.toList

/-- `while let Some(stripped) = canonical.strip_suffix(".git")`. -/
def stripGit (candidate : List Char) : List Char :=
  (dropRepeated ".git".toList.reverse candidate.length candidate.reverse).reverse

/-- The path behind one of the prefixes, without its `.git`s, if it is valid. -/
def parseCanonical (prefixes : List String) (valid : List Char → Bool) (remote : List Char) :
    Option (List Char) :=
  (stripAny prefixes remote).bind fun candidate =>
    if valid (stripGit candidate) then some (stripGit candidate) else none

def parseGithubRemote (remote : List Char) : Option (List Char) :=
  parseCanonical githubPrefixes isOwnerRepo remote

def parseGitlabRemote (remote : List Char) : Option (GitHost × List Char) :=
  (parseCanonical gitlabPrefixes isForgeProjectPath remote).map fun path => (.gitLab, path)

def parseGitRemote (remote : List Char) : Option (GitHost × List Char) :=
  match parseGithubRemote remote with
  | some path => some (.gitHub, path)
  | none => parseGitlabRemote remote

/-! ## Events -/

/-- The environment of the process, and the URL of the remote `origin`, if `git` gives one. -/
structure Environment where
  var : String → Option String
  origin : Option String

def detectForgeRepository (env : Environment) : Option String :=
  let validated (name : String) : Option String :=
    (env.var name).filter fun value => isForgeProjectPath value.toList
  let ciProject : Option String :=
    ((env.var "CI_PROJECT_PATH").map fun path => trimPath path.toList).bind fun trimmed =>
      if isForgeProjectPath trimmed then some (String.ofList trimmed) else none
  let fromOrigin : Option String :=
    env.origin.bind fun remote =>
      (parseGitRemote (trimBoth isWhitespace remote.toList)).map fun parsed => String.ofList parsed.2
  ciProject.or ((validated "GITHUB_REPOSITORY").or ((validated "GITLAB_PROJECT_PATH").or fromOrigin))

structure CodeCommittedEvent where
  repo : String
  branch : String
  commitSha : String
  changedPaths : List String
  authoringAgentId : String
  jobId : Option String
  timestamp : Timestamp
  aivcsCommitId : Option String
  deriving DecidableEq

/-- What is handed to the transport: the endpoint, the method and the event. -/
structure Emission where
  endpoint : String
  method : String
  event : CodeCommittedEvent
  deriving DecidableEq

/-- A variable that is set to more than spaces. -/
def nonBlank (env : Environment) (name : String) : Option String :=
  (env.var name).filter fun value => !(trimBoth isWhitespace value.toList).isEmpty

def maybeEmitCodeCommitted (env : Environment) (now : Timestamp) (branch commitSha : String)
    (changedPaths : List String) (author : String) (repoOverride aivcsCommitId : Option String) :
    Option Emission := do
  let endpoint ← nonBlank env "AIVCS_A2A_JSONRPC_URL"
  let repo := ((repoOverride.filter fun s => isForgeProjectPath s.toList).or
    (detectForgeRepository env)).getD "unknown/unknown"
  return {
    endpoint := endpoint
    method := (env.var "AIVCS_A2A_JSONRPC_METHOD").getD "a2a.events.publish"
    event := {
      repo := repo
      branch := branch
      commitSha := commitSha
      changedPaths := changedPaths
      authoringAgentId := (env.var "AIVCS_AGENT_ID").getD author
      jobId := nonBlank env "AIVCS_JOB_ID"
      timestamp := now
      aivcsCommitId := aivcsCommitId } }

/-! ## Prefixes and suffixes -/

/-- No prefix of the list begins another. -/
def Apart (prefixes : List String) : Prop :=
  ∀ p ∈ prefixes, ∀ q ∈ prefixes, p.toList <+: q.toList → p = q

theorem stripAny_append {prefixes : List String} (h : Apart prefixes) {p : String}
    (hp : p ∈ prefixes) (rest : List Char) : stripAny prefixes (p.toList ++ rest) = some rest := by
  unfold stripAny
  cases hfind : prefixes.findSome? fun q => (p.toList ++ rest).dropPrefix? q.toList with
  | none =>
      have hnone := List.findSome?_eq_none_iff.1 hfind p hp
      have hsome : (p.toList ++ rest).dropPrefix? p.toList = some rest := dropPrefix?_iff.2 rfl
      rw [hsome] at hnone
      cases hnone
  | some found =>
      rcases List.exists_of_findSome?_eq_some hfind with ⟨q, hq, hdrop⟩
      have heq := dropPrefix?_iff.1 hdrop
      -- The prefix that was found and the one that was put there begin one text.
      have hsame : p = q := by
        rcases List.prefix_or_prefix_of_prefix (List.prefix_append p.toList rest)
          (heq ▸ List.prefix_append q.toList found) with hpq | hqp
        · exact h p hp q hq hpq
        · exact (h q hq p hp hqp).symm
      subst hsame
      rw [List.append_cancel_left heq]

theorem stripAny_eq_some {prefixes : List String} {remote rest : List Char}
    (h : stripAny prefixes remote = some rest) : ∃ p ∈ prefixes, remote = p.toList ++ rest := by
  rcases List.exists_of_findSome?_eq_some h with ⟨p, hp, hdrop⟩
  exact ⟨p, hp, dropPrefix?_iff.1 hdrop⟩

theorem apart_hosts : Apart (githubPrefixes ++ gitlabPrefixes) := by
  unfold Apart
  decide +kernel

theorem Apart.of_subset {ps qs : List String} (h : Apart qs) (hsub : ps ⊆ qs) : Apart ps :=
  fun p hp q hq => h p (hsub hp) q (hsub hq)

theorem apart_github : Apart githubPrefixes :=
  apart_hosts.of_subset (List.subset_append_left _ _)

theorem apart_gitlab : Apart gitlabPrefixes :=
  apart_hosts.of_subset (List.subset_append_right _ _)

/-- A remote of GitLab is none of GitHub. -/
theorem stripAny_github_gitlab {front : String} (hfront : front ∈ gitlabPrefixes) (rest : List Char) :
    stripAny githubPrefixes (front.toList ++ rest) = none := by
  cases hstrip : stripAny githubPrefixes (front.toList ++ rest) with
  | none => rfl
  | some found =>
      rcases stripAny_eq_some hstrip with ⟨p, hp, heq⟩
      have hp' : p ∈ githubPrefixes ++ gitlabPrefixes := List.mem_append_left _ hp
      have hfront' : front ∈ githubPrefixes ++ gitlabPrefixes := List.mem_append_right _ hfront
      have hsame : p = front := by
        rcases List.prefix_or_prefix_of_prefix (List.prefix_append p.toList found)
          (heq ▸ List.prefix_append front.toList rest) with hpf | hfp
        · exact apart_hosts p hp' front hfront' hpf
        · exact (apart_hosts front hfront' p hp' hfp).symm
      have hdisjoint : ∀ q ∈ gitlabPrefixes, q ∉ githubPrefixes := by
        decide +kernel
      exact absurd (hsame ▸ hp) (hdisjoint front hfront)

theorem not_suffix_stripGit (candidate : List Char) : ¬ ".git".toList <:+ stripGit candidate := by
  intro h
  have hrev := List.reverse_prefix.2 h
  rw [stripGit, List.reverse_reverse] at hrev
  exact not_prefix_dropRepeated (by decide) (List.length_reverse).le hrev

/-- Copies of `.git` behind a path. -/
def gits (k : Nat) : List Char :=
  (List.replicate k ".git".toList).flatten

theorem stripGit_append {path : List Char} (h : ¬ ".git".toList <:+ path) (k : Nat) :
    stripGit (path ++ gits k) = path := by
  have hrev : (path ++ gits k).reverse
      = (List.replicate k ".git".toList.reverse).flatten ++ path.reverse := by
    rw [List.reverse_append, gits, List.reverse_flatten, List.map_replicate, List.reverse_replicate]
  have hpath : ¬ ".git".toList.reverse <+: path.reverse := fun hpre => h (List.reverse_prefix.1 hpre)
  rw [stripGit, hrev, dropRepeated_flatten_replicate (by decide) hpath, List.reverse_reverse]
  rw [← hrev, List.length_reverse]

theorem parseCanonical_eq_some_iff {prefixes : List String} (h : Apart prefixes)
    {valid : List Char → Bool} {remote path : List Char} :
    parseCanonical prefixes valid remote = some path ↔
      ∃ front ∈ prefixes, ∃ rest, remote = front.toList ++ rest ∧ stripGit rest = path ∧
        valid path = true := by
  unfold parseCanonical
  constructor
  · intro hparse
    rcases Option.bind_eq_some_iff.1 hparse with ⟨rest, hstrip, hvalid⟩
    rcases stripAny_eq_some hstrip with ⟨front, hfront, heq⟩
    split at hvalid
    · rename_i hv
      have hpath := Option.some.inj hvalid
      exact ⟨front, hfront, rest, heq, hpath, hpath ▸ hv⟩
    · cases hvalid
  · rintro ⟨front, hfront, rest, rfl, rfl, hvalid⟩
    rw [stripAny_append h hfront, Option.bind_some, if_pos hvalid]

/-- A canonical path is read back from every spelling. -/
theorem parseCanonical_append {prefixes : List String} (h : Apart prefixes)
    {valid : List Char → Bool} {path : List Char} (hvalid : valid path = true)
    (hgit : ¬ ".git".toList <:+ path) {front : String} (hfront : front ∈ prefixes) (k : Nat) :
    parseCanonical prefixes valid (front.toList ++ (path ++ gits k)) = some path :=
  (parseCanonical_eq_some_iff h).2 ⟨front, hfront, _, rfl, stripGit_append hgit k, hvalid⟩

/-! ## The shape of a path -/

/-- Two or more valid segments with single slashes between them. -/
def SegmentShape (path : List Char) : Prop :=
  2 ≤ (path.splitOn '/').length ∧ ∀ segment ∈ path.splitOn '/', isName segment = true

/-- No spaces around it and no empty segment. -/
def Clean (path : List Char) : Prop :=
  trimBoth isWhitespace path = path ∧ ∀ segment ∈ path.splitOn '/', segment ≠ []

instance (path : List Char) : Decidable (SegmentShape path) := by
  unfold SegmentShape
  infer_instance

instance (path : List Char) : Decidable (Clean path) := by
  unfold Clean
  infer_instance

theorem isAlnum_of_isName {segment : List Char} (h : isName segment = true) :
    segment ≠ [] ∧ (∀ c ∈ segment.head?, isAlnum c = true) ∧
      ∀ c ∈ segment.getLast?, isAlnum c = true := by
  simp only [isName, Bool.and_eq_true, Bool.not_eq_true', List.isEmpty_eq_false_iff] at h
  rcases h with ⟨⟨⟨⟨hne, -⟩, hhead⟩, hlast⟩, -⟩
  refine ⟨hne, fun c hc => ?_, fun c hc => ?_⟩
  · rw [Option.mem_def.1 hc] at hhead
    exact hhead
  · rw [Option.mem_def.1 hc] at hlast
    exact hlast

theorem isAlnum_ne {c : Char} (h : isAlnum c = true) : isWhitespace c = false ∧ c ≠ '/' := by
  have hrange : 97 ≤ c.toNat ∧ c.toNat ≤ 122 ∨ 65 ≤ c.toNat ∧ c.toNat ≤ 90 ∨
      48 ≤ c.toNat ∧ c.toNat ≤ 57 := by
    simpa [isAlnum, Char.le_def, UInt32.le_iff_toNat_le, or_assoc] using h
  refine ⟨?_, ?_⟩
  · unfold isWhitespace
    simp only [Bool.or_eq_false_iff, Bool.and_eq_false_iff, decide_eq_false_iff_not]
    omega
  · rintro rfl
    have hslash : '/'.toNat = 47 := rfl
    omega

/-- The first segment begins where the path does. -/
theorem head?_of_segments {path : List Char} (h : ∀ segment ∈ path.splitOn '/', segment ≠ []) :
    ∃ segment ∈ path.splitOn '/', segment.head? = path.head? ∧ path.head? ≠ some '/' := by
  have hmem : upTo '/' path ∈ path.splitOn '/' :=
    List.mem_of_mem_head? (head?_splitOn '/' path)
  refine ⟨upTo '/' path, hmem, ?_⟩
  have hne := h _ hmem
  cases path with
  | nil => exact absurd rfl hne
  | cons c path =>
      by_cases hc : c = '/'
      · subst hc
        exact absurd (List.takeWhile_cons_of_neg (by simp)) hne
      · rw [upTo, List.takeWhile_cons_of_pos (by simpa using hc)]
        exact ⟨rfl, by simpa using hc⟩

/-- The last segment ends where the path does. -/
theorem getLast?_of_segments {path : List Char} (h : ∀ segment ∈ path.splitOn '/', segment ≠ []) :
    ∃ segment ∈ path.splitOn '/', segment.getLast? = path.getLast? ∧ path.getLast? ≠ some '/' := by
  have hmem : afterLast '/' path ∈ path.splitOn '/' :=
    List.mem_of_mem_getLast? (getLast?_splitOn '/' path)
  refine ⟨afterLast '/' path, hmem, ?_⟩
  have hne := h _ hmem
  rw [afterLast_eq_reverse] at hne ⊢
  rw [List.getLast?_reverse, ← List.head?_reverse]
  cases hrev : path.reverse with
  | nil =>
      rw [hrev] at hne
      exact absurd rfl hne
  | cons c front =>
      rw [hrev] at hne
      by_cases hc : c = '/'
      · subst hc
        exact absurd (by rw [upTo, List.takeWhile_cons_of_neg (by simp)]; rfl) hne
      · rw [upTo, List.takeWhile_cons_of_pos (by simpa using hc)]
        exact ⟨rfl, by simpa using hc⟩

theorem clean_of_segmentShape {path : List Char} (h : SegmentShape path) : Clean path := by
  have hne : ∀ segment ∈ path.splitOn '/', segment ≠ [] :=
    fun segment hsegment => (isAlnum_of_isName (h.2 segment hsegment)).1
  refine ⟨Trimmed.trimBoth_eq ⟨fun c hc => ?_, fun c hc => ?_⟩, hne⟩
  · rcases head?_of_segments hne with ⟨segment, hsegment, hhead, -⟩
    rw [← hhead] at hc
    exact (isAlnum_ne ((isAlnum_of_isName (h.2 segment hsegment)).2.1 c hc)).1
  · rcases getLast?_of_segments hne with ⟨segment, hsegment, hlast, -⟩
    rw [← hlast] at hc
    exact (isAlnum_ne ((isAlnum_of_isName (h.2 segment hsegment)).2.2 c hc)).1

/-- The check takes nothing off a clean path. -/
theorem trimPath_of_clean {path : List Char} (h : Clean path) : trimPath path = path := by
  rw [trimPath, h.1]
  refine Trimmed.trimBoth_eq ⟨fun c hc => ?_, fun c hc => ?_⟩
  · rcases head?_of_segments h.2 with ⟨-, -, -, hslash⟩
    rw [Option.mem_def.1 hc] at hslash
    simpa using hslash
  · rcases getLast?_of_segments h.2 with ⟨-, -, -, hslash⟩
    rw [Option.mem_def.1 hc] at hslash
    simpa using hslash

/-- A path that passes the check has the shape exactly when it is clean. -/
theorem segmentShape_iff {path : List Char} (h : isForgeProjectPath path = true) :
    SegmentShape path ↔ Clean path := by
  constructor
  · exact clean_of_segmentShape
  · intro hclean
    have hall : (path.splitOn '/').filter (fun s => !s.isEmpty) = path.splitOn '/' := by
      refine List.filter_eq_self.2 fun segment hsegment => ?_
      simpa using hclean.2 segment hsegment
    simp only [isForgeProjectPath, trimPath_of_clean hclean, hall] at h
    split at h
    · cases h
    · split at h
      · cases h
      · rename_i hlength
        exact ⟨Nat.le_of_not_lt hlength, List.all_eq_true.1 h⟩

theorem segmentShape_of_isOwnerRepo {path : List Char} (h : isOwnerRepo path = true) :
    SegmentShape path ∧ (path.splitOn '/').length = 2 := by
  unfold isOwnerRepo at h
  split at h
  · rename_i owner repo hsplit
    rcases splitOnce_eq_some_iff.1 hsplit with ⟨rfl, howner⟩
    simp only [Bool.and_eq_true, Bool.not_eq_true', List.contains_eq_mem, decide_eq_false_iff_not] at h
    rcases h with ⟨⟨hrepo, hownerName⟩, hrepoName⟩
    have hsegments : (owner ++ '/' :: repo).splitOn '/' = [owner, repo] := by
      rw [List.splitOn_append_cons_self, List.splitOn_eq_singleton howner,
        List.splitOn_eq_singleton hrepo]
      rfl
    rw [SegmentShape, hsegments]
    refine ⟨⟨Nat.le_refl _, fun segment hsegment => ?_⟩, rfl⟩
    rcases List.mem_pair.1 hsegment with rfl | rfl
    · exact hownerName
    · exact hrepoName
  · cases h

/-! ## Canonical identities -/

/-- The prefixes of the URLs of a host. -/
def prefixes : GitHost → List String
  | .gitHub => githubPrefixes
  | .gitLab => gitlabPrefixes

/-- A repository has one name: its path has the shape, exactly two segments on GitHub, no `.git` behind it,
and is read from every spelling of its URL. -/
def CanonicalIdentity (host : GitHost) (path : List Char) : Prop :=
  SegmentShape path ∧ (host = .gitHub → (path.splitOn '/').length = 2) ∧ ¬ ".git".toList <:+ path ∧
    ∀ front ∈ prefixes host, ∀ k, parseGitRemote (front.toList ++ (path ++ gits k)) = some (host, path)

theorem parseGitRemote_eq_gitHub_iff {remote path : List Char} :
    parseGitRemote remote = some (.gitHub, path) ↔ parseGithubRemote remote = some path := by
  unfold parseGitRemote parseGitlabRemote
  cases parseGithubRemote remote with
  | some found => simp
  | none => simp

theorem parseGitRemote_gitlab {front : String} (hfront : front ∈ gitlabPrefixes) (rest : List Char) :
    parseGitRemote (front.toList ++ rest) = parseGitlabRemote (front.toList ++ rest) := by
  have hnone : parseGithubRemote (front.toList ++ rest) = none := by
    rw [parseGithubRemote, parseCanonical, stripAny_github_gitlab hfront, Option.bind_none]
  rw [parseGitRemote, hnone]

theorem parseGitRemote_eq_gitLab_iff {remote path : List Char} :
    parseGitRemote remote = some (.gitLab, path) ↔
      ∃ front ∈ gitlabPrefixes, ∃ rest, remote = front.toList ++ rest ∧ stripGit rest = path ∧
        isForgeProjectPath path = true := by
  constructor
  · intro h
    have hparse : parseGitlabRemote remote = some (.gitLab, path) := by
      unfold parseGitRemote at h
      split at h
      · cases h
      · exact h
    rcases Option.map_eq_some_iff.1 hparse with ⟨found, hfound, heq⟩
    cases heq
    exact (parseCanonical_eq_some_iff apart_gitlab).1 hfound
  · rintro ⟨front, hfront, rest, rfl, hstrip, hvalid⟩
    have hfound := (parseCanonical_eq_some_iff apart_gitlab).2
      ⟨front, hfront, rest, rfl, hstrip, hvalid⟩
    rw [parseGitRemote_gitlab hfront, parseGitlabRemote, hfound, Option.map_some]

theorem canonicalIdentity_gitHub {remote path : List Char}
    (h : parseGitRemote remote = some (.gitHub, path)) : CanonicalIdentity .gitHub path := by
  -- What was checked is what is returned.
  rcases (parseCanonical_eq_some_iff apart_github).1 (parseGitRemote_eq_gitHub_iff.1 h) with
    ⟨-, -, rest, -, hstrip, hvalid⟩
  have hgit : ¬ ".git".toList <:+ path := hstrip ▸ not_suffix_stripGit rest
  rcases segmentShape_of_isOwnerRepo hvalid with ⟨hshape, hlength⟩
  refine ⟨hshape, fun _ => hlength, hgit, fun front hfront k => ?_⟩
  exact parseGitRemote_eq_gitHub_iff.2 (parseCanonical_append apart_github hvalid hgit hfront k)

/-- A path that was read from a remote of GitLab lacks at most the shape. -/
theorem canonicalIdentity_gitLab_iff {remote path : List Char}
    (h : parseGitRemote remote = some (.gitLab, path)) :
    CanonicalIdentity .gitLab path ↔ SegmentShape path := by
  rcases parseGitRemote_eq_gitLab_iff.1 h with ⟨-, -, rest, -, hstrip, hvalid⟩
  have hgit : ¬ ".git".toList <:+ path := hstrip ▸ not_suffix_stripGit rest
  constructor
  · exact fun hcanonical => hcanonical.1
  · intro hshape
    have hhost : GitHost.gitLab = .gitHub → (path.splitOn '/').length = 2 := by
      intro heq
      cases heq
    refine ⟨hshape, hhost, hgit, fun front hfront k => ?_⟩
    exact parseGitRemote_eq_gitLab_iff.2
      ⟨front, hfront, path ++ gits k, rfl, stripGit_append hgit k, hvalid⟩

/-! ## The repository of an event -/

/-- A validated override is the repository of the event, as it stands. -/
theorem maybeEmitCodeCommitted_repo {env : Environment} {now : Timestamp} {branch commitSha : String}
    {changedPaths : List String} {author repoOverride : String} {aivcsCommitId : Option String}
    {emission : Emission} (hvalid : isForgeProjectPath repoOverride.toList = true)
    (h : maybeEmitCodeCommitted env now branch commitSha changedPaths author (some repoOverride)
      aivcsCommitId = some emission) : emission.event.repo = repoOverride := by
  unfold maybeEmitCodeCommitted at h
  rcases Option.bind_eq_some_iff.1 h with ⟨endpoint, -, hemission⟩
  rw [← Option.some.inj hemission]
  simp [Option.filter, hvalid]

theorem maybeEmitCodeCommitted_eq_none_iff {env : Environment} {now : Timestamp}
    {branch commitSha : String} {changedPaths : List String} {author : String}
    {repoOverride aivcsCommitId : Option String} :
    maybeEmitCodeCommitted env now branch commitSha changedPaths author repoOverride aivcsCommitId
      = none ↔ nonBlank env "AIVCS_A2A_JSONRPC_URL" = none := by
  unfold maybeEmitCodeCommitted
  cases nonBlank env "AIVCS_A2A_JSONRPC_URL" with
  | none => exact ⟨fun _ => rfl, fun _ => rfl⟩
  | some endpoint => simp

theorem canonicalIdentity_iff_clean (remote : List Char) :
    (∀ host path, parseGitRemote remote = some (host, path) → CanonicalIdentity host path) ↔
      ∀ front ∈ gitlabPrefixes, ∀ rest, remote = front.toList ++ rest →
        isForgeProjectPath (stripGit rest) = true → Clean (stripGit rest) := by
  constructor
  · intro h front hfront rest hremote hvalid
    have hparse := parseGitRemote_eq_gitLab_iff.2 ⟨front, hfront, rest, hremote, rfl, hvalid⟩
    exact (segmentShape_iff hvalid).1 (h _ _ hparse).1
  · intro h host path hparse
    cases host with
    | gitHub => exact canonicalIdentity_gitHub hparse
    | gitLab =>
        rcases parseGitRemote_eq_gitLab_iff.1 hparse with ⟨front, hfront, rest, hremote, rfl, hvalid⟩
        have hclean := h front hfront rest hremote hvalid
        exact (canonicalIdentity_gitLab_iff hparse).2 ((segmentShape_iff hvalid).2 hclean)

theorem segmentShape_repo_iff_clean {env : Environment} {now : Timestamp} {branch commitSha : String}
    {changedPaths : List String} {author repoOverride : String} {aivcsCommitId : Option String} :
    (∀ emission, maybeEmitCodeCommitted env now branch commitSha changedPaths author
        (some repoOverride) aivcsCommitId = some emission →
        isForgeProjectPath repoOverride.toList = true → SegmentShape emission.event.repo.toList) ↔
      nonBlank env "AIVCS_A2A_JSONRPC_URL" = none ∨ isForgeProjectPath repoOverride.toList = false ∨
        Clean repoOverride.toList := by
  constructor
  · intro h
    cases hvalid : isForgeProjectPath repoOverride.toList with
    | false => exact Or.inr (Or.inl rfl)
    | true =>
        cases hemit : maybeEmitCodeCommitted env now branch commitSha changedPaths author
          (some repoOverride) aivcsCommitId with
        | none => exact Or.inl (maybeEmitCodeCommitted_eq_none_iff.1 hemit)
        | some emission =>
            have hshape := h emission hemit hvalid
            rw [maybeEmitCodeCommitted_repo hvalid hemit] at hshape
            exact Or.inr (Or.inr ((segmentShape_iff hvalid).1 hshape))
  · rintro (hendpoint | hinvalid | hclean) emission hemit hvalid
    · rw [maybeEmitCodeCommitted_eq_none_iff.2 hendpoint] at hemit
      cases hemit
    · rw [hinvalid] at hvalid
      cases hvalid
    · rw [maybeEmitCodeCommitted_repo hvalid hemit]
      exact (segmentShape_iff hvalid).2 hclean

/-- The identities that are read from `remote` are canonical, and the repository of an event has the shape
if its override was validated, exactly when the checks had nothing to take off: no spaces around a path, no
slash at its ends or behind another slash. -/
theorem identities_canonical_iff (remote : List Char) (env : Environment) (now : Timestamp)
    (branch commitSha : String) (changedPaths : List String) (author repoOverride : String)
    (aivcsCommitId : Option String) :
    ((∀ host path, parseGitRemote remote = some (host, path) → CanonicalIdentity host path) ↔
      ∀ front ∈ gitlabPrefixes, ∀ rest, remote = front.toList ++ rest →
        isForgeProjectPath (stripGit rest) = true → Clean (stripGit rest)) ∧
    ((∀ emission, maybeEmitCodeCommitted env now branch commitSha changedPaths author
        (some repoOverride) aivcsCommitId = some emission →
        isForgeProjectPath repoOverride.toList = true → SegmentShape emission.event.repo.toList) ↔
      nonBlank env "AIVCS_A2A_JSONRPC_URL" = none ∨ isForgeProjectPath repoOverride.toList = false ∨
        Clean repoOverride.toList) :=
  ⟨canonicalIdentity_iff_clean remote, segmentShape_repo_iff_clean⟩

/-- An endpoint is set, and nothing else. -/
def endpointOnly : Environment where
  var name := if name = "AIVCS_A2A_JSONRPC_URL" then some "https://a2a.example/rpc" else none
  origin := none

/-- The path of `git@gitlab.com:a//b` has an empty segment, and the override `a/b` with a line break behind
it passes into the event. -/
theorem emptySegment_accepted :
    (parseGitRemote "git@gitlab.com:a//b".toList = some (.gitLab, "a//b".toList) ∧
      ¬ CanonicalIdentity .gitLab "a//b".toList) ∧
    ((maybeEmitCodeCommitted endpointOnly 0 "main" "abc123" [] "agent" (some "a/b\n") none).map
        (fun emission => emission.event.repo) = some "a/b\n" ∧
      isForgeProjectPath "a/b\n".toList = true ∧ ¬ SegmentShape "a/b\n".toList) := by
  refine ⟨⟨by decide +kernel, fun h => ?_⟩, by decide +kernel, by decide +kernel, by decide +kernel⟩
  exact absurd h.1 (by decide +kernel)

end Git
end Aivcs
