import Aivcs.Lib.Map
import Aivcs.Lib.Proc
import Aivcs.Forge.Types

/-!
# Forge.Store — the `ForgeStore` interface and its in-memory implementation

A handler sees a store only through the methods of the `ForgeStore` trait.  `ForgeOp` lists the
methods with their arguments, `ForgeOp.Ans` their results, and `ForgeProc` the programs that call
them.  `InMemoryState.exec` is `InMemoryForgeStore`: each method runs inside one lock, so each is one
atomic step.  (A poisoned lock is not modelled: nothing in the crate panics while holding it.)
-/

namespace Aivcs
namespace Forge

open Aivcs.Lib

/-! ## The interface -/

inductive ForgeOp
  | putBlob (bytes : Bytes)
  | getBlob (digest : String)
  | putCommit (commit : CommitRecord)
  | getCommit (repo commitId : String)
  | setBranch (repo branch commitId : String)
  | getBranch (repo branch : String)
  | casSetBranch (repo branch : String) (expected : Option String) (commitId : String)
  | existsAll (digests : List String)
  | atomicPublish (repo : String) (blobs : List Bytes) (commit : CommitRecord)
      (branchUpdates : List (String × String))
  | isRepoPrivate (repo : String)
  | setRepoPrivate (repo : String) (isPrivate : Bool)

@[reducible] def ForgeOp.Ans : ForgeOp → Type
  | .putBlob _ => Except ForgeError String
  | .getBlob _ => Except ForgeError (Option Bytes)
  | .putCommit _ => Except ForgeError Unit
  | .getCommit _ _ => Except ForgeError (Option CommitRecord)
  | .setBranch _ _ _ => Except ForgeError Unit
  | .getBranch _ _ => Except ForgeError (Option String)
  | .casSetBranch _ _ _ _ => Except ForgeError Bool
  | .existsAll _ => Except ForgeError (List Bool)
  | .atomicPublish _ _ _ _ => Except ForgeError AtomicPublishResult
  | .isRepoPrivate _ => Except ForgeError Bool
  | .setRepoPrivate _ _ => Except ForgeError Unit

abbrev ForgeProc (α : Type) : Type := Proc ForgeOp ForgeOp.Ans α

namespace ForgeStore

def putBlob (bytes : Bytes) : ForgeProc (Except ForgeError String) :=
  Proc.perform (ForgeOp.putBlob bytes)

def getBlob (digest : String) : ForgeProc (Except ForgeError (Option Bytes)) :=
  Proc.perform (ForgeOp.getBlob digest)

def putCommit (commit : CommitRecord) : ForgeProc (Except ForgeError Unit) :=
  Proc.perform (ForgeOp.putCommit commit)

def getCommit (repo commitId : String) : ForgeProc (Except ForgeError (Option CommitRecord)) :=
  Proc.perform (ForgeOp.getCommit repo commitId)

def setBranch (repo branch commitId : String) : ForgeProc (Except ForgeError Unit) :=
  Proc.perform (ForgeOp.setBranch repo branch commitId)

def getBranch (repo branch : String) : ForgeProc (Except ForgeError (Option String)) :=
  Proc.perform (ForgeOp.getBranch repo branch)

def casSetBranch (repo branch : String) (expected : Option String) (commitId : String) :
    ForgeProc (Except ForgeError Bool) :=
  Proc.perform (ForgeOp.casSetBranch repo branch expected commitId)

def existsAll (digests : List String) : ForgeProc (Except ForgeError (List Bool)) :=
  Proc.perform (ForgeOp.existsAll digests)

def atomicPublish (repo : String) (blobs : List Bytes) (commit : CommitRecord)
    (branchUpdates : List (String × String)) : ForgeProc (Except ForgeError AtomicPublishResult) :=
  Proc.perform (ForgeOp.atomicPublish repo blobs commit branchUpdates)

def setRepoPrivate (repo : String) (isPrivate : Bool) : ForgeProc (Except ForgeError Unit) :=
  Proc.perform (ForgeOp.setRepoPrivate repo isPrivate)

end ForgeStore

/-! ## The in-memory store -/

structure InMemoryState where
  cas : Map String Bytes
  commits : Map (String × String) CommitRecord
  branches : Map (String × String) String
  repoPrivate : Map String Bool

namespace InMemoryState

/-- `InMemoryForgeStore::new`. -/
def empty : InMemoryState :=
  { cas := ∅, commits := ∅, branches := ∅, repoPrivate := ∅ }

variable (D : Deployment)

/-- The three gates of `atomic_publish`: nothing is written until they have passed. -/
def atomicPublishGates (s : InMemoryState) (repo : String) (blobs : List Bytes)
    (commit : CommitRecord) (branchUpdates : List (String × String)) : Except ForgeError Unit :=
  let blobDigests := blobs.map D.sha256Hex
  -- A blob counts if it is uploaded with the commit or stored already.
  match commit.manifest.find? fun e => !(blobDigests.contains e.digest || (s.cas e.digest).isSome)
    with
  | some e => .error (.missingBlob e.path e.digest)
  | none =>
      -- The commit being published may be a target although it is not stored yet.
      match branchUpdates.find? fun u =>
          !(s.commits (repo, u.2)).isSome && u.2 != commit.commitId with
      | some u => .error (.backend ("target commit " ++ u.2 ++ " does not exist"))
      | none => .ok ()

/-- The three steps of `atomic_publish` once the gates have passed. -/
def atomicPublishEffects (s : InMemoryState) (repo : String) (blobs : List Bytes)
    (commit : CommitRecord) (branchUpdates : List (String × String)) : InMemoryState :=
  { s with
    cas := blobs.foldl (fun cas b => cas.insert (D.sha256Hex b) b) s.cas
    -- Keyed by the repository of the record, not by that of the request; an old record is replaced.
    commits := s.commits.insert (commit.repo, commit.commitId) commit
    branches := branchUpdates.foldl (fun bs u => bs.insert (repo, u.1) u.2) s.branches }

def exec : (op : ForgeOp) → InMemoryState → op.Ans × InMemoryState
  | .putBlob bytes, s =>
      (.ok (D.sha256Hex bytes), { s with cas := s.cas.insert (D.sha256Hex bytes) bytes })
  | .getBlob digest, s => (.ok (s.cas digest), s)
  | .putCommit commit, s =>
      (.ok (), { s with commits := s.commits.insert (commit.repo, commit.commitId) commit })
  | .getCommit repo commitId, s => (.ok (s.commits (repo, commitId)), s)
  | .setBranch repo branch commitId, s =>
      (.ok (), { s with branches := s.branches.insert (repo, branch) commitId })
  | .getBranch repo branch, s => (.ok (s.branches (repo, branch)), s)
  | .casSetBranch repo branch expected commitId, s =>
      if s.branches (repo, branch) = expected then
        (.ok true, { s with branches := s.branches.insert (repo, branch) commitId })
      else
        (.ok false, s)
  | .existsAll digests, s => (.ok (digests.map fun d => (s.cas d).isSome), s)
  | .atomicPublish repo blobs commit branchUpdates, s =>
      match atomicPublishGates D s repo blobs commit branchUpdates with
      | .error e => (.error e, s)
      | .ok () =>
          (.ok { commitId := commit.commitId
                 blobsStored := blobs.length
                 branchesUpdated := branchUpdates.length },
            atomicPublishEffects D s repo blobs commit branchUpdates)
  -- A repository nobody has marked is private.
  | .isRepoPrivate repo, s => (.ok ((s.repoPrivate repo).getD true), s)
  | .setRepoPrivate repo isPrivate, s =>
      (.ok (), { s with repoPrivate := s.repoPrivate.insert repo isPrivate })

/-! ## What the gates check -/

/-- The gates pass exactly when every manifest digest is stored or uploaded and every branch target
is a commit of the repository or the one being published. -/
theorem atomicPublishGates_ok {s : InMemoryState} {repo : String} {blobs : List Bytes}
    {commit : CommitRecord} {branchUpdates : List (String × String)} :
    atomicPublishGates D s repo blobs commit branchUpdates = .ok () ↔
      (∀ e ∈ commit.manifest, e.digest ∈ blobs.map D.sha256Hex ∨ (s.cas e.digest).isSome) ∧
        ∀ u ∈ branchUpdates, (s.commits (repo, u.2)).isSome ∨ u.2 = commit.commitId := by
  unfold atomicPublishGates
  constructor
  · intro h
    dsimp only at h
    split at h
    · cases h
    · rename_i hman
      split at h
      · cases h
      · rename_i hupd
        constructor
        · intro e he
          have hno := List.find?_eq_none.1 hman e he
          rwa [Bool.not_eq_true, Bool.not_eq_false', Bool.or_eq_true, List.contains_iff_mem] at hno
        · intro u hu
          have hno := List.find?_eq_none.1 hupd u hu
          cases hc : (s.commits (repo, u.2)).isSome with
          | true =>
              exact Or.inl rfl
          | false =>
              exact Or.inr (by simpa [hc] using hno)
  · rintro ⟨hman, hupd⟩
    have h₁ : commit.manifest.find?
        (fun e => !((blobs.map D.sha256Hex).contains e.digest || (s.cas e.digest).isSome)) =
          none := by
      apply List.find?_eq_none.2
      intro e he
      rw [Bool.not_eq_true, Bool.not_eq_false', Bool.or_eq_true, List.contains_iff_mem]
      exact hman e he
    have h₂ : branchUpdates.find?
        (fun u => !(s.commits (repo, u.2)).isSome && u.2 != commit.commitId) = none := by
      apply List.find?_eq_none.2
      intro u hu
      rcases hupd u hu with hc | hc
      · simp [hc]
      · simp [hc]
    simp only [h₁, h₂]

/-- The gates only ever answer with a missing blob or an unknown target. -/
theorem atomicPublishGates_cases (s : InMemoryState) (repo : String) (blobs : List Bytes)
    (commit : CommitRecord) (branchUpdates : List (String × String)) :
    atomicPublishGates D s repo blobs commit branchUpdates = .ok () ∨
      ∃ e, atomicPublishGates D s repo blobs commit branchUpdates = .error e := by
  cases h : atomicPublishGates D s repo blobs commit branchUpdates with
  | error e =>
      exact Or.inr ⟨e, rfl⟩
  | ok u =>
      exact Or.inl rfl

/-! ## What the effects write -/

/-- Storing blobs one by one: a digest is present afterwards iff it was before or was uploaded. -/
theorem isSome_foldl_insert_blobs (blobs : List Bytes) (cas : Map String Bytes) (d : String) :
    ((blobs.foldl (fun cas b => cas.insert (D.sha256Hex b) b) cas) d).isSome = true ↔
      d ∈ blobs.map D.sha256Hex ∨ (cas d).isSome = true := by
  induction blobs generalizing cas with
  | nil =>
      simp
  | cons b blobs ih =>
      rw [List.foldl_cons, ih, Map.isSome_insert, List.map_cons, List.mem_cons]
      tauto

/-- Updating branches one by one: a head is an old one or one of the targets. -/
theorem foldl_insert_branches (repo : String) (updates : List (String × String))
    (branches : Map (String × String) String) {k : String × String} {c : String}
    (h : (updates.foldl (fun bs u => bs.insert (repo, u.1) u.2) branches) k = some c) :
    branches k = some c ∨ (k.1 = repo ∧ ∃ u ∈ updates, u.2 = c) := by
  induction updates generalizing branches with
  | nil =>
      exact Or.inl h
  | cons u updates ih =>
      rw [List.foldl_cons] at h
      -- Later updates are covered by the hypothesis; what is left is the update at the head.
      rcases ih _ h with hold | ⟨hrepo, v, hv, hc⟩
      · by_cases hk : k = (repo, u.1)
        · subst hk
          have hc : u.2 = c := by simpa using hold
          exact Or.inr ⟨rfl, u, by simp, hc⟩
        · rw [Map.insert_of_ne _ _ hk] at hold
          exact Or.inl hold
      · exact Or.inr ⟨hrepo, v, by simp [hv], hc⟩

end InMemoryState

end Forge
end Aivcs
