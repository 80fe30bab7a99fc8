import Aivcs.Cli.Publish
import Aivcs.Forge.CommitIdentity
import Aivcs.Lib.Interleaving

/-!
# Cli.NoLostPublish — concurrent publishers on one forge

Any number of clients publish at once; every store call their requests lead to is one step.  A
publish that has returned should stay in the history of its branch.

All clients share one guarantee, `Advances`: stored commits stay, and every head moves to a commit
from which the old head is reachable.  The compare-and-swap of `update_branch` gives it, since the new
commit has the expected head as its parent.  The branch write of `create_repo` does not: it was
decided by an earlier read.  So the result is for runs in which that write never meets a branch
somebody else has moved in between, and `create_repo_discards_publish` is a run in which it does.

A publish moves the branch that its URL names.  `question_mark_moves_main` is a publish to a branch that is
still absent afterwards, because the handlers got another name.
-/

namespace Aivcs
namespace Cli

open Aivcs.Lib
open Aivcs.Forge
open Aivcs.Lib.Proc

variable {D : Deployment} {s s' s'' : InMemoryState}

/-! ## History -/

/-- The stored commit `child` has `parent` among its parents. -/
def IsParent (s : InMemoryState) (repo child parent : String) : Prop :=
  ∃ r, s.commits (repo, child) = some r ∧ parent ∈ r.parents

/-- `c` is `head` or an ancestor of it, through the parents of stored commits. -/
def Reaches (s : InMemoryState) (repo head c : String) : Prop :=
  Relation.ReflTransGen (IsParent s repo) head c

theorem IsParent.kept {repo child parent : String} (hkept : CommitsKept s s')
    (h : IsParent s repo child parent) : IsParent s' repo child parent := by
  rcases h with ⟨r, hr, hmem⟩
  exact ⟨r, hkept _ _ _ hr, hmem⟩

theorem Reaches.kept {repo head c : String} (hkept : CommitsKept s s')
    (h : Reaches s repo head c) : Reaches s' repo head c :=
  Relation.ReflTransGen.mono (fun _ _ (hp : IsParent s repo _ _) => hp.kept hkept) _ _ h

/-- The branch is there and its head has `c` in its history. -/
def Holds (s : InMemoryState) (repo branch c : String) : Prop :=
  ∃ head, s.branches (repo, branch) = some head ∧ Reaches s repo head c

/-! ## What every client guarantees -/

/-- Each branch moved, if at all, to a commit with the old head in its history. -/
def HeadsForward (s s' : InMemoryState) : Prop :=
  ∀ repo branch h, s.branches (repo, branch) = some h → Holds s' repo branch h

/-- How a store of content-derived commits evolves. -/
def Advances (D : Deployment) (s s' : InMemoryState) : Prop :=
  s.WellKeyed D → s'.WellKeyed D ∧ CommitsKept s s' ∧ HeadsForward s s'

theorem HeadsForward.refl_of_branches (hb : s'.branches = s.branches) : HeadsForward s s' := by
  intro repo branch h hh
  exact ⟨h, by rw [hb, hh], Relation.ReflTransGen.refl⟩

theorem Holds.advances {repo branch c : String} (hkept : CommitsKept s s')
    (hheads : HeadsForward s s') (h : Holds s repo branch c) : Holds s' repo branch c := by
  rcases h with ⟨head, hhead, hreach⟩
  rcases hheads repo branch head hhead with ⟨head', hhead', hreach'⟩
  exact ⟨head', hhead', hreach'.trans (hreach.kept hkept)⟩

theorem advances_refl (s : InMemoryState) : Advances D s s := by
  intro hk
  exact ⟨hk, fun _ _ _ h => h, HeadsForward.refl_of_branches rfl⟩

theorem advances_trans (h₁ : Advances D s s') (h₂ : Advances D s' s'') : Advances D s s'' := by
  intro hk
  rcases h₁ hk with ⟨hk', hkept', hheads'⟩
  rcases h₂ hk' with ⟨hk'', hkept'', hheads''⟩
  refine ⟨hk'', fun repo c r hr => hkept'' _ _ _ (hkept' _ _ _ hr), ?_⟩
  intro repo branch h hh
  exact (hheads' repo branch h hh).advances hkept'' hheads''

/-! ## Which calls keep it -/

/-- The condition on runs: a branch is only set outright where it is absent or there already. -/
def SetsFreshBranch (s : InMemoryState) : ForgeOp → Prop
  | .setBranch repo branch commitId =>
      s.branches (repo, branch) = none ∨ s.branches (repo, branch) = some commitId
  | _ => True

/-- The calls that advance the store wherever they are made. -/
def Harmless (D : Deployment) : ForgeOp → Prop
  | .putCommit commit => commit.commitId = commit.contentId D
  -- These two depend on the arguments they are given; `wp_moveBranch` treats the first, and no
  -- handler a publish reaches makes the second.
  | .casSetBranch _ _ _ _ => False
  | .atomicPublish _ _ _ _ => False
  | _ => True

/-- Commits and branches untouched. -/
theorem advances_of_same (hc : s'.commits = s.commits) (hb : s'.branches = s.branches) :
    Advances D s s' := by
  intro hk
  refine ⟨⟨?_, ?_⟩, ?_, HeadsForward.refl_of_branches hb⟩
  · rw [hc]
    exact hk.key
  · rw [hc]
    exact hk.derived
  · intro repo c r hr
    rw [hc]
    exact hr

/-- A branch set to `c`: the head that was there must be in the history of `c`. -/
theorem advances_of_branch {repo branch c : String}
    (h : ∀ h, s.branches (repo, branch) = some h → Reaches s repo c h) :
    Advances D s { s with branches := s.branches.insert (repo, branch) c } := by
  intro hk
  refine ⟨⟨hk.key, hk.derived⟩, fun _ _ _ hr => hr, ?_⟩
  intro repo' branch' h' hh'
  by_cases hkey : (repo', branch') = (repo, branch)
  · obtain ⟨rfl, rfl⟩ := Prod.mk.inj hkey
    exact ⟨c, Map.insert_self _ _ _, h h' hh'⟩
  · refine ⟨h', ?_, Relation.ReflTransGen.refl⟩
    exact (Map.insert_of_ne _ _ hkey).trans hh'

theorem advances_of_harmless (hsha : Function.Injective D.sha256Hex) (op : ForgeOp)
    (s : InMemoryState) (hop : Harmless D op) (hok : SetsFreshBranch s op) :
    Advances D s (InMemoryState.exec D op s).2 := by
  cases op with
  | putCommit commit =>
      intro hk
      have hins : (InMemoryState.exec D (.putCommit commit) s).2.commits =
          s.commits.insert (commit.repo, commit.commitId) commit := rfl
      -- A record with a derived id can only be stored over itself.
      rcases hk.insert hins (Or.inl hop) (fun r₀ => hk.eq_of_stored hsha hop) with ⟨hk', hkept⟩
      exact ⟨hk', hkept, HeadsForward.refl_of_branches rfl⟩
  | setBranch repo branch commitId =>
      refine advances_of_branch ?_
      intro h hh
      -- The condition on runs is used here and nowhere else.
      rcases hok with hnone | hsome
      · rw [hnone] at hh
        cases hh
      · rw [hsome] at hh
        obtain rfl := Option.some.inj hh
        exact Relation.ReflTransGen.refl
  | casSetBranch repo branch expected commitId =>
      exact hop.elim
  | atomicPublish repo blobs commit branchUpdates =>
      exact hop.elim
  | _ =>
      exact advances_of_same rfl rfl

/-! ## The handlers a publish reaches -/

theorem calls_getBranch (repo branch : String) : (Forge.getBranch repo branch).Calls (Harmless D) := by
  refine ⟨trivial, ?_⟩
  rintro (e | _ | head) <;> trivial

theorem calls_getCommitManifest (repo c : String) :
    (getCommitManifest repo c).Calls (Harmless D) := by
  refine ⟨trivial, ?_⟩
  rintro (e | _ | r) <;> trivial

theorem calls_getBlob (digest : String) : (Forge.getBlob digest).Calls (Harmless D) := by
  refine ⟨trivial, ?_⟩
  rintro (e | _ | b) <;> trivial

theorem calls_putBlob (bytes : Bytes) : (Forge.putBlob bytes).Calls (Harmless D) := by
  refine ⟨trivial, ?_⟩
  rintro (e | digest) <;> trivial

/-- `create_repo` stores a root commit under its derived id, then sets the branch outright. -/
theorem calls_createRepo (req : CreateRepoRequest) : (createRepo D req).Calls (Harmless D) := by
  unfold createRepo
  cases req.repoId with
  | none =>
      trivial
  | some repo =>
      simp only
      split
      · trivial
      · refine ⟨trivial, ?_⟩
        rintro (e | _ | head)
        · trivial
        · -- Fresh: visibility, root commit, branch.
          refine ⟨trivial, ?_⟩
          rintro (e | _)
          · trivial
          · refine ⟨(rootCommit_bound repo).2, ?_⟩
            rintro (e | _)
            · trivial
            · refine ⟨trivial, ?_⟩
              rintro (e | _) <;> trivial
        · -- Existing: at most its visibility.
          unfold createExistingRepo
          cases req.isPrivate with
          | none =>
              trivial
          | some isPrivate =>
              refine ⟨trivial, ?_⟩
              rintro (e | _) <;> trivial

theorem calls_inheritedDigests (repo : String) (parents : List String) :
    (inheritedDigests repo parents).Calls (Harmless D) := by
  -- One `get_commit` per parent, then those of the rest.
  induction parents with
  | nil =>
      trivial
  | cons p parents ih =>
      refine ⟨trivial, ?_⟩
      rintro (e | parent)
      · trivial
      · refine ih.bind ?_
        rintro (e | rest)
        · trivial
        · cases parent <;> trivial

theorem calls_digestsRequiringValidation (repo : String) (parents : List String)
    (manifest : List ManifestEntry) :
    (digestsRequiringValidation repo parents manifest).Calls (Harmless D) := by
  refine (calls_inheritedDigests repo parents).bind ?_
  rintro (e | inherited) <;> trivial

/-! ## The client's harmless part -/

theorem calls_requestBranch {repo branch : String} {handler : String → String → ForgeProc Response}
    (h : ∀ repo name, (handler repo name).Calls (Harmless D)) :
    (requestBranch repo branch handler).Calls (Harmless D) := by
  unfold requestBranch
  cases branchRoute repo branch with
  | branch repo name => exact h repo name
  | invalidUtf8 => trivial
  | noRoute => trivial

theorem calls_resolveBranchOptional (client : Client) (repo branch : String) :
    (resolveBranchOptional client repo branch).Calls (Harmless D) := by
  unfold resolveBranchOptional
  split
  · trivial
  · refine (calls_requestBranch calls_getBranch).bind fun resp => ?_
    split
    · trivial
    · split
      · trivial
      · split <;> trivial

theorem calls_resolveParent (client : Client) (args : PublishArgs) :
    (resolveParent D client args).Calls (Harmless D) := by
  refine (calls_resolveBranchOptional client args.repo args.branch).bind ?_
  rintro (e | _ | head)
  · trivial
  · refine (calls_createRepo _).bind fun resp => ?_
    split
    · trivial
    · exact calls_resolveBranchOptional client args.repo args.branch
  · -- The branch was there: the client goes on without creating anything.
    trivial

theorem calls_inheritedFromParent (repo : String) (parentHead : Option String) :
    (inheritedFromParent repo parentHead).Calls (Harmless D) := by
  cases parentHead with
  | none =>
      trivial
  | some head =>
      have hfetch : (fetchManifestDirect repo head).Calls (Harmless D) := by
        refine (calls_getCommitManifest repo head).bind fun resp => ?_
        split
        · trivial
        · split <;> trivial
      have hparent : (parentDigests repo head).Calls (Harmless D) := by
        refine hfetch.bind ?_
        rintro (e | manifest) <;> trivial
      refine hparent.bind ?_
      rintro (e | digests) <;> trivial

theorem calls_uploadBlob (client : Client) (tree : Tree) (e : ManifestEntry) :
    (uploadBlob client tree e).Calls (Harmless D) := by
  -- With or without the probe, the one call that writes is that of `put_blob`.
  have hsend : (sendFile tree e).Calls (Harmless D) := by
    unfold sendFile
    cases tree.readFile e.path with
    | none =>
        trivial
    | some data =>
        refine (calls_putBlob data).bind fun resp => ?_
        split <;> trivial
  unfold uploadBlob
  split
  · refine Calls.bind ((calls_getBlob e.digest).bind fun _ => trivial) ?_
    rintro (_ | _)
    · exact hsend
    · trivial
  · exact hsend

theorem calls_uploadBlobs (client : Client) (args : PublishArgs) (entries : List ManifestEntry) :
    (uploadBlobs client args entries).Calls (Harmless D) := by
  refine Calls.bind (Calls.par ?_) fun _ => trivial
  intro p hp
  rcases List.mem_map.1 hp with ⟨e, -, rfl⟩
  exact calls_uploadBlob client args.tree e

/-! ## Correctness of a publish among others -/

section Publish

variable (hsha : Function.Injective D.sha256Hex)
include hsha

/-- A program of harmless calls: all that is known afterwards is how the store evolved. -/
theorem wp_of_calls {α : Type} {p : ForgeProc α} (hp : p.Calls (Harmless D)) (hk : s.WellKeyed D)
    {Q : α → InMemoryState → Prop}
    (hQ : ∀ a s', s'.WellKeyed D → CommitsKept s s' → Q a s') :
    Wp (InMemoryState.exec D) SetsFreshBranch (Advances D) Q p s := by
  have h : Wp (InMemoryState.exec D) SetsFreshBranch (Advances D) (fun _ _ => True) p s :=
    hp.wp (advances_of_harmless hsha) s
  refine (h.evolves advances_refl advances_trans).mono ?_
  rintro a s' ⟨hadv, -⟩
  rcases hadv hk with ⟨hk', hkept, -⟩
  exact hQ a s' hk' hkept

/-- What a client knows once its commit is posted. -/
def Posted (D : Deployment) (req : CreateCommitRequest) (c : String) (s : InMemoryState) : Prop :=
  c = (req.record D).commitId ∧ s.commits (req.repo, c) = some (req.record D)

omit hsha in
theorem Posted.kept {req : CreateCommitRequest} {c : String} (hkept : CommitsKept s s')
    (h : Posted D req c s) : Posted D req c s' :=
  ⟨h.1, hkept _ _ _ h.2⟩

/-- `create_commit`: a success means the record is stored under the id in the answer. -/
theorem wp_createCommit (hk : s.WellKeyed D) (req : CreateCommitRequest) :
    Wp (InMemoryState.exec D) SetsFreshBranch (Advances D)
      (fun resp s' => s'.WellKeyed D ∧ (resp.status.isSuccess = true →
        ∃ c tree, resp.body = .createCommit c tree ∧ Posted D req c s'))
      (createCommit D req) s := by
  refine Wp.bind (wp_of_calls hsha (calls_digestsRequiringValidation _ _ _) hk ?_)
  intro digests s₁ hk₁ _
  cases digests with
  | error e =>
      exact ⟨hk₁, by rintro ⟨⟩⟩
  | ok digests =>
      refine Wp.bind (wp_of_calls hsha (p := ForgeStore.existsAll digests)
        ⟨trivial, fun _ => trivial⟩ hk₁ ?_)
      intro found s₂ hk₂ _
      cases found with
      | error e =>
          exact ⟨hk₂, by rintro ⟨⟩⟩
      | ok found =>
          simp only
          split
          · -- Refused: an error response is no success.
            split
            · exact ⟨hk₂, by rintro ⟨⟩⟩
            · exact ⟨hk₂, by rintro ⟨⟩⟩
          · -- The record goes in under its derived id and stays.
            unfold storeCommit
            rw [commitOfIdentity_eq_record]
            intro hok
            have hadv := advances_of_harmless hsha (.putCommit (req.record D)) s₂
              req.record_bound.2 hok
            refine ⟨hadv, ?_⟩
            intro s₃ hadv₃
            rcases hadv hk₂ with ⟨hk₂', -, -⟩
            rcases hadv₃ hk₂' with ⟨hk₃, hkept₃, -⟩
            refine ⟨hk₃, fun _ => ⟨_, _, rfl, rfl, hkept₃ _ _ _ ?_⟩⟩
            exact Map.insert_self _ _ _

/-- Probing for the expected id: the record found there is the one that would have been posted. -/
theorem wp_commitExists (hk : s.WellKeyed D) (req : CreateCommitRequest) :
    Wp (InMemoryState.exec D) SetsFreshBranch (Advances D)
      (fun found s' => s'.WellKeyed D ∧ (found = true → Posted D req (expectedCommitId D req) s'))
      (commitExists req.repo (expectedCommitId D req)) s := by
  intro hok
  refine ⟨advances_of_same rfl rfl, ?_⟩
  intro s₁ hadv₁
  rcases hadv₁ hk with ⟨hk₁, hkept₁, -⟩
  cases hr : s.commits (req.repo, expectedCommitId D req) with
  | none =>
      simp only [InMemoryState.exec, hr]
      exact ⟨hk₁, by rintro ⟨⟩⟩
  | some r =>
      -- The id is derived, so what is stored under it is the record this client wanted to post.
      have heq : r = req.record D := hk.eq_of_stored hsha req.record_bound.2 hr
      simp only [InMemoryState.exec, hr]
      rw [heq] at hr
      exact ⟨hk₁, fun _ => ⟨rfl, hkept₁ _ _ _ hr⟩⟩

/-- The last resort of `post_commit`. -/
theorem wp_probe (hk : s.WellKeyed D) (req : CreateCommitRequest) (message : String) :
    Wp (InMemoryState.exec D) SetsFreshBranch (Advances D)
      (fun res s' => s'.WellKeyed D ∧ ∀ c, res = Except.ok c → Posted D req c s')
      ((commitExists req.repo (expectedCommitId D req)).bind fun found =>
        if found = true then
          (.ret (.ok (expectedCommitId D req)) : ForgeProc (Except String String))
        else .ret (.error message)) s := by
  refine Wp.bind ((wp_commitExists hsha hk req).mono ?_)
  rintro found s₁ ⟨hk₁, hfound⟩
  split_ifs with hf
  · refine ⟨hk₁, ?_⟩
    rintro c ⟨⟩
    exact hfound hf
  · refine ⟨hk₁, ?_⟩
    rintro c ⟨⟩

theorem wp_postCommit (client : Client) (hk : s.WellKeyed D) (req : CreateCommitRequest) :
    Wp (InMemoryState.exec D) SetsFreshBranch (Advances D)
      (fun res s' => s'.WellKeyed D ∧ ∀ c, res = Except.ok c → Posted D req c s')
      (postCommit D client req) s := by
  unfold postCommit
  split_ifs with hretries
  · exact wp_probe hsha hk req _
  · refine Wp.bind ((wp_createCommit hsha hk req).mono ?_)
    rintro resp s₁ ⟨hk₁, hresp⟩
    split_ifs with hstatus
    · rcases hresp hstatus with ⟨c, tree, hbody, hposted⟩
      rw [hbody]
      refine ⟨hk₁, ?_⟩
      rintro c' ⟨⟩
      exact hposted
    · exact wp_probe hsha hk₁ req _

/-- The branch moves from the expected head to a commit that has it as its parent. -/
theorem wp_moveBranch {client : Client} (hforce : client.force = false) (hk : s.WellKeyed D)
    {req : CreateCommitRequest} {branch c : String} {parentHead : Option String}
    (hparents : req.parents = parentHead.toList) (hposted : Posted D req c s) :
    Wp (InMemoryState.exec D) SetsFreshBranch (Advances D)
      (fun res s' => res = Except.ok () →
        ∃ repo name, branchRoute req.repo branch = .branch repo name ∧ Holds s' repo name c)
      (moveBranch D client req.repo branch c parentHead) s := by
  -- Without `AIVCS_PUBLISH_FORCE` the head that was read is sent as the precondition.
  have hpayload : branchPayload client c parentHead =
      { commitId := c, expectedHead := parentHead, expectAbsent := parentHead.isNone } := by
    cases parentHead <;> simp [branchPayload, hforce]
  unfold moveBranch requestBranch
  rw [hpayload]
  generalize branchRoute req.repo branch = route
  cases route with
  | invalidUtf8 => rintro ⟨⟩
  | noRoute => rintro ⟨⟩
  | branch repo name =>
      refine Wp.bind ?_
      -- `get_commit` changes nothing, and the record it finds stays.
      intro _
      refine ⟨advances_of_same rfl rfl, ?_⟩
      intro s₁ hadv₁
      rcases hadv₁ hk with ⟨hk₁, hkept₁, -⟩
      cases hr : s.commits (repo, c) with
      | none =>
          simp only [InMemoryState.exec, hr]
          rintro ⟨⟩
      | some r =>
          -- Whatever repository the route is for, the record under the id is the one that was posted.
          have hpar : r.parents = req.parents := by
            rw [hposted.1] at hr
            rw [hk.eq_of_stored hsha req.record_bound.2 hr]
            rfl
          have hr₁ := hkept₁ _ _ _ hr
          simp only [InMemoryState.exec, hr]
          -- So of the branches of `update_branch` only the compare-and-swap is left.
          have hboth : (parentHead.isNone && parentHead.isSome) = false := by
            cases parentHead <;> rfl
          have hone : (parentHead.isNone || parentHead.isSome) = true := by
            cases parentHead <;> rfl
          simp only [hboth, hone]
          intro _
          by_cases hhead : s₁.branches (repo, name) = parentHead
          · -- The swap succeeds: the old head, if any, is the parent of the new one.
            have hreach : ∀ h, s₁.branches (repo, name) = some h → Reaches s₁ repo c h := by
              intro h hh
              refine Relation.ReflTransGen.single ⟨r, hr₁, ?_⟩
              rw [hpar, hparents, ← hhead, hh]
              simp
            have hexec : InMemoryState.exec D (.casSetBranch repo name parentHead c) s₁ =
                (.ok true, { s₁ with branches := s₁.branches.insert (repo, name) c }) := by
              simp [InMemoryState.exec, hhead]
            rw [hexec]
            have hadv := advances_of_branch (D := D) hreach
            refine ⟨hadv, ?_⟩
            -- Whatever others did since, the commit is in the history of the head.
            intro s₂ hadv₂ _
            rcases hadv₂ (hadv hk₁).1 with ⟨-, -, hheads₂⟩
            exact ⟨repo, name, rfl, hheads₂ _ _ _ (Map.insert_self _ _ _)⟩
          · -- The swap fails: the handler reads the head and the client reports a conflict.
            have hexec : InMemoryState.exec D (.casSetBranch repo name parentHead c) s₁ =
                (.ok false, s₁) := by
              simp [InMemoryState.exec, hhead]
            rw [hexec]
            refine ⟨advances_refl s₁, ?_⟩
            intro s₂ _ _
            refine ⟨advances_of_same rfl rfl, ?_⟩
            intro s₃ _
            rintro ⟨⟩

/-- A commit is in the history of the branch that the URL of a publish names. -/
def InHistory (args : PublishArgs) (c : String) (s : InMemoryState) : Prop :=
  ∃ repo name, branchRoute args.repo args.branch = .branch repo name ∧ Holds s repo name c

/-- Every result of a publish among others: what it returned is in the history of its branch. -/
theorem wp_publish {client : Client} (hforce : client.force = false) (args : PublishArgs)
    (hk : s.WellKeyed D) :
    Wp (InMemoryState.exec D) SetsFreshBranch (Advances D)
      (fun res s' => ∀ c, res = Except.ok c → InHistory args c s')
      (publish D client args) s := by
  unfold publish
  simp only
  split_ifs with hempty
  · rintro c ⟨⟩
  -- Up to the commit only the store invariant is carried along; the head that was read may be old.
  refine Wp.bind (wp_of_calls hsha (calls_resolveParent client args) hk ?_)
  intro parent s₁ hk₁ _
  cases parent with
  | error e =>
      rintro c ⟨⟩
  | ok parentHead =>
      refine Wp.bind (wp_of_calls hsha (calls_inheritedFromParent _ _) hk₁ ?_)
      intro inherited s₂ hk₂ _
      refine Wp.bind (wp_of_calls hsha (calls_uploadBlobs client args _) hk₂ ?_)
      intro uploaded s₃ hk₃ _
      cases uploaded with
      | error e =>
          rintro c ⟨⟩
      | ok _ =>
          refine Wp.bind ((wp_postCommit hsha client hk₃ _).mono ?_)
          rintro posted s₄ ⟨hk₄, hposted⟩
          cases posted with
          | error e =>
              rintro c ⟨⟩
          | ok c =>
              -- The commit has the expected head as its only parent.
              refine Wp.bind ((wp_moveBranch hsha hforce hk₄ rfl (hposted c rfl)).mono ?_)
              intro moved s₅ hholds
              cases moved with
              | error e =>
                  rintro c' ⟨⟩
              | ok _ =>
                  rintro c' ⟨⟩
                  exact hholds rfl

end Publish

/-! ## Runs -/

open Interleaving

/-- The clients at work on a store, each at the beginning of its publish. -/
def publishers {ι : Type} (D : Deployment) (clients : ι → Client) (args : ι → PublishArgs)
    (s : InMemoryState) :
    Config ForgeOp ForgeOp.Ans (Except String String) InMemoryState ι :=
  { store := s, procs := fun i => publish D (clients i) (args i) }

/-- In every run in which `create_repo` never sets a branch that is already somewhere else, what a
publish returned is in the history of its branch from then on, if the name of the branch comes back from a
URL as it is. -/
theorem no_lost_publish (D : Deployment) (hsha : Function.Injective D.sha256Hex) {ι : Type}
    [DecidableEq ι] (clients : ι → Client) (hforce : ∀ i, (clients i).force = false)
    (args : ι → PublishArgs) (s : InMemoryState) (hs : s.WellKeyed D)
    (c c' : Config ForgeOp ForgeOp.Ans (Except String String) InMemoryState ι)
    (hrun : Steps (InMemoryState.exec D) SetsFreshBranch (publishers D clients args s) c)
    (hlater : Steps (InMemoryState.exec D) SetsFreshBranch c c') (i : ι)
    (hbranch : PlainBranch (args i).branch) (commitId : String)
    (hret : c.procs i = .ret (.ok commitId)) :
    Holds c'.store (args i).repo (args i).branch commitId := by
  have hinit : AllWp (InMemoryState.exec D) SetsFreshBranch (Advances D)
      (fun i res s' => ∀ c, res = Except.ok c → InHistory (args i) c s')
      (publishers D clients args s) := by
    intro i s' hadv
    exact wp_publish hsha (hforce i) (args i) (hadv hs).1
  -- A program that has returned is left alone, so its postcondition is still there at the end.
  have hend := Steps.wp_preserved advances_refl advances_trans (hrun.trans hlater) hinit
  obtain ⟨repo, name, hroute, hholds⟩ :=
    hend.2.post_of_ret advances_refl (hlater.procs_ret hret) commitId rfl
  obtain hsame | hnone := hbranch.branchRoute_eq (args i).repo
  · rw [hsame, BranchRoute.branch.injEq] at hroute
    obtain ⟨rfl, rfl⟩ := hroute
    exact hholds
  · rw [hnone] at hroute
    cases hroute

/-! ## Two clients and a new repository -/

/-- The SHA-256 digests of what two publishers of one small tree hash. -/
def raceDigests : List (Bytes × String) :=
  [(utf8 "hi",
      "8f434346648f6b96df89dda901c5176b10a6d83961dd3c1ac88b59b2dc327aa4"),
    (utf8 "[]",
      "4f53cda18c2baa0c0354bb5f9a3ecbe5ed12ab4d8e11ba873c2f11161202b945"),
    (utf8 ("\x7b\"author\":\"aivcsd\",\"manifest\":[],\"message\":\"init\",\"parents" ++
        "\":[],\"repo\":\"demo\",\"tree_digest\":\"4f53cda18c2baa0c0354bb5f9a3ecb" ++
        "e5ed12ab4d8e11ba873c2f11161202b945\"\x7d"),
      "3c5caca14f6fe2df4292409c5f2025c7488c33ee20cbf6d2d4fdb5ee2cd43525"),
    (utf8 ("[[\"f\",\"8f434346648f6b96df89dda901c5176b10a6d83961dd3c1ac88b59b2dc327a" ++
        "a4\",false,2]]"),
      "95f40242209189509de63d9af4133d9d16336befffde2a21b22642a38f3bbace"),
    (utf8 ("\x7b\"author\":\"a\",\"manifest\":[\x7b\"digest\":\"8f434346648f6b96df89" ++
        "dda901c5176b10a6d83961dd3c1ac88b59b2dc327aa4\",\"executable\":false,\"pa" ++
        "th\":\"f\",\"size\":2\x7d],\"message\":\"m\",\"parents\":[\"3c5caca14f6f" ++
        "e2df4292409c5f2025c7488c33ee20cbf6d2d4fdb5ee2cd43525\"],\"repo\":\"demo" ++
        "\",\"tree_digest\":\"95f40242209189509de63d9af4133d9d16336befffde2a21b22" ++
        "642a38f3bbace\"\x7d"),
      "e9cf97238d271ae900867aeef5c7c2029303bdd20dcf846e2082f7d5f3328fdc"),
    (utf8 ("\x7b\"author\":\"a\",\"manifest\":[\x7b\"digest\":\"8f434346648f6b96df89" ++
        "dda901c5176b10a6d83961dd3c1ac88b59b2dc327aa4\",\"executable\":false,\"pa" ++
        "th\":\"f\",\"size\":2\x7d],\"message\":\"m\",\"parents\":[\"e9cf97238d27" ++
        "1ae900867aeef5c7c2029303bdd20dcf846e2082f7d5f3328fdc\"],\"repo\":\"demo" ++
        "\",\"tree_digest\":\"95f40242209189509de63d9af4133d9d16336befffde2a21b22" ++
        "642a38f3bbace\"\x7d"),
      "70c71d428cccd4eb269dc5570a1fe85e6e4f32d8121f1789e225362b49f84468")]

theorem raceDigests_injective : Function.Injective (Deployment.ofTable raceDigests).sha256Hex :=
  tableDigest_injective (by decide +kernel) (by decide +kernel)

def raceArgs : PublishArgs :=
  { tree := .file "f" (utf8 "hi") false .nil, repo := "demo", message := "m", author := "a"
    branch := "main", isPrivate := none, schedule := [] }

/-- Two clients about to publish the same tree to a repository that does not exist. -/
def race : Config ForgeOp ForgeOp.Ans (Except String String) InMemoryState Bool :=
  publishers (.ofTable raceDigests) (fun _ => .default) (fun _ => raceArgs) .empty

/-- The first client publishes from beginning to end. -/
def raceFirst : Config ForgeOp ForgeOp.Ans (Except String String) InMemoryState Bool :=
  race.fireAll (InMemoryState.exec (.ofTable raceDigests)) (List.replicate 13 true)

instance (s : InMemoryState) (op : ForgeOp) : Decidable (SetsFreshBranch s op) :=
  match op with
  | .setBranch repo branch commitId =>
      inferInstanceAs (Decidable (s.branches (repo, branch) = none ∨
        s.branches (repo, branch) = some commitId))
  | .putBlob _ | .getBlob _ | .putCommit _ | .getCommit _ _ | .getBranch _ _
  | .casSetBranch _ _ _ _ | .existsAll _ | .atomicPublish _ _ _ _ | .isRepoPrivate _
  | .setRepoPrivate _ _ => inferInstanceAs (Decidable True)

theorem plainBranch_main : PlainBranch "main" where
  nonempty := by decide +kernel
  bytes := by decide +kernel
  last := by
    have hlast : (utf8 "main").getLast? = some 110 := by decide +kernel
    intro b hb
    rw [hlast, Option.some.injEq] at hb
    rw [← hb]
    decide
  no_dots := by decide +kernel
  no_escape := by decide +kernel

/-- One after the other: after the second publish the first is still in the history. -/
theorem no_lost_publish_in_sequence :
    Holds (raceFirst.fireAll (InMemoryState.exec (.ofTable raceDigests))
        (List.replicate 7 false)).store "demo" "main"
      "e9cf97238d271ae900867aeef5c7c2029303bdd20dcf846e2082f7d5f3328fdc" := by
  obtain ⟨hfirst, hsecond, hret⟩ :
      race.OkAlong (InMemoryState.exec (.ofTable raceDigests)) SetsFreshBranch
        (List.replicate 13 true) ∧
      raceFirst.OkAlong (InMemoryState.exec (.ofTable raceDigests)) SetsFreshBranch
        (List.replicate 7 false) ∧
      (raceFirst.procs true).result? =
        some (.ok "e9cf97238d271ae900867aeef5c7c2029303bdd20dcf846e2082f7d5f3328fdc") := by
    decide +kernel
  have hrun : Steps (InMemoryState.exec (.ofTable raceDigests)) SetsFreshBranch race raceFirst :=
    Steps.of_okAlong hfirst
  exact no_lost_publish (.ofTable raceDigests) raceDigests_injective (fun _ => .default)
    (fun _ => rfl) (fun _ => raceArgs) .empty InMemoryState.wellKeyed_empty raceFirst _ hrun
    (Steps.of_okAlong hsecond) true plainBranch_main _ (Proc.eq_ret_of_result? hret)

/-- The second client reads that the repository is absent; then the first one publishes. -/
def raceBetween : Config ForgeOp ForgeOp.Ans (Except String String) InMemoryState Bool :=
  race.fireAll (InMemoryState.exec (.ofTable raceDigests))
    ([false, false] ++ List.replicate 13 true)

/-- Then the second one goes on creating the repository. -/
def raceAfter : Config ForgeOp ForgeOp.Ans (Except String String) InMemoryState Bool :=
  raceBetween.fireAll (InMemoryState.exec (.ofTable raceDigests)) (List.replicate 3 false)

/-- A commit without parents reaches only itself. -/
theorem eq_of_reaches_root {repo head c : String} {r : CommitRecord}
    (hr : s.commits (repo, head) = some r) (hroot : r.parents = []) (h : Reaches s repo head c) :
    c = head := by
  rcases Relation.ReflTransGen.cases_head h with heq | ⟨p, ⟨r', hr', hmem⟩, -⟩
  · exact heq.symm
  · rw [hr] at hr'
    obtain rfl := Option.some.inj hr'
    rw [hroot] at hmem
    cases hmem

/-- Every publish that has returned is in the history of its branch from then on. -/
def NoLostPublish (D : Deployment)
    (c₀ : Config ForgeOp ForgeOp.Ans (Except String String) InMemoryState Bool)
    (args : Bool → PublishArgs) : Prop :=
  ∀ c c', Steps (InMemoryState.exec D) (fun _ _ => True) c₀ c →
    Steps (InMemoryState.exec D) (fun _ _ => True) c c' →
    ∀ i commitId, c.procs i = .ret (.ok commitId) →
      Holds c'.store (args i).repo (args i).branch commitId

/-- The branch write of `create_repo` puts the root commit over a publish that has returned. -/
theorem create_repo_discards_publish : ¬ NoLostPublish (.ofTable raceDigests) race fun _ => raceArgs := by
  intro h
  obtain ⟨hret, hhead, hroot⟩ :
      (raceBetween.procs true).result? =
        some (.ok "e9cf97238d271ae900867aeef5c7c2029303bdd20dcf846e2082f7d5f3328fdc") ∧
      raceAfter.store.branches ("demo", "main") =
        some "3c5caca14f6fe2df4292409c5f2025c7488c33ee20cbf6d2d4fdb5ee2cd43525" ∧
      (raceAfter.store.commits
        ("demo", "3c5caca14f6fe2df4292409c5f2025c7488c33ee20cbf6d2d4fdb5ee2cd43525")).map
          CommitRecord.parents = some [] := by
    decide +kernel
  -- The head is now the root commit, which has no parents to reach the publish through.
  rcases Option.map_eq_some_iff.1 hroot with ⟨r, hr, hparents⟩
  have hrun : Steps (InMemoryState.exec (.ofTable raceDigests)) (fun _ _ => True) race raceBetween :=
    Steps.of_okAlong (Config.okAlong_of_forall (fun _ _ => trivial) _ _)
  have hlater : Steps (InMemoryState.exec (.ofTable raceDigests)) (fun _ _ => True) raceBetween
      raceAfter :=
    Steps.of_okAlong (Config.okAlong_of_forall (fun _ _ => trivial) _ _)
  have hholds : Holds raceAfter.store "demo" "main"
      "e9cf97238d271ae900867aeef5c7c2029303bdd20dcf846e2082f7d5f3328fdc" :=
    h _ _ hrun hlater true _ (Proc.eq_ret_of_result? hret)
  rcases hholds with ⟨head, hhead', hreach⟩
  rw [hhead] at hhead'
  obtain rfl := Option.some.inj hhead'
  exact absurd (eq_of_reaches_root hr hparents hreach) (by decide)

/-- The same publish to a branch whose name has a question mark. -/
def draftArgs : PublishArgs :=
  { raceArgs with branch := "main?draft" }

def draft : Config ForgeOp ForgeOp.Ans (Except String String) InMemoryState Bool :=
  publishers (.ofTable raceDigests) (fun _ => .default) (fun _ => draftArgs) .empty

def draftDone : Config ForgeOp ForgeOp.Ans (Except String String) InMemoryState Bool :=
  draft.fireAll (InMemoryState.exec (.ofTable raceDigests)) (List.replicate 13 true)

/-- The publish returns with no other client at work, and `main?draft` is absent. -/
theorem question_mark_moves_main : ¬ NoLostPublish (.ofTable raceDigests) draft fun _ => draftArgs := by
  intro h
  obtain ⟨hret, habsent⟩ :
      (draftDone.procs true).result? =
        some (.ok "e9cf97238d271ae900867aeef5c7c2029303bdd20dcf846e2082f7d5f3328fdc") ∧
      draftDone.store.branches ("demo", "main?draft") = none := by
    decide +kernel
  have hrun : Steps (InMemoryState.exec (.ofTable raceDigests)) (fun _ _ => True) draft draftDone :=
    Steps.of_okAlong (Config.okAlong_of_forall (fun _ _ => trivial) _ _)
  have hholds : Holds draftDone.store "demo" "main?draft"
      "e9cf97238d271ae900867aeef5c7c2029303bdd20dcf846e2082f7d5f3328fdc" :=
    h _ _ hrun Relation.ReflTransGen.refl true _ (Proc.eq_ret_of_result? hret)
  rcases hholds with ⟨head, hhead, -⟩
  rw [habsent] at hhead
  cases hhead

theorem publishes_get_lost :
    (¬ NoLostPublish (.ofTable raceDigests) race fun _ => raceArgs) ∧
      ¬ NoLostPublish (.ofTable raceDigests) draft fun _ => draftArgs :=
  ⟨create_repo_discards_publish, question_mark_moves_main⟩

end Cli
end Aivcs
