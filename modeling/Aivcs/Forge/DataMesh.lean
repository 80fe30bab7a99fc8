import Aivcs.Forge.Types
import Aivcs.Lib.Collection
import Aivcs.Lib.Text

/-!
# Forge.DataMesh — commits and branches on a data-mesh

`DataMeshForgeStore` keeps commits and branch moves in append-only collections.  A commit is added once under
`repo:commit_id`; every move of a branch is added with `repo:branch`, and the newest one is its head.

The data-mesh service is not part of this repository; a collection is what its client documents
(`Lib.Collection`), and its calls do not fail.

The key of a commit or a branch is its repository, a colon and its name, and neither may have colons in it: a
repository `a:b` with a branch `c` and a repository `a` with a branch `b:c` have one key.  `valid_repo` allows
no colon in a repository id, but only `create_repo` asks it.

* `Clash` — the names of two repositories that have one key;
* `repos_isolated_iff` — writing to one repository does not change what is read from another, unless their
  names clash and the write is new.
-/

namespace Aivcs
namespace Forge

open Aivcs.Lib

/-- The document of a commit: the record and its key. -/
structure CommitDoc where
  record : CommitRecord
  commitKey : String
  deriving DecidableEq

/-- The document of a branch move. -/
structure BranchDoc where
  branchKey : String
  repo : String
  branch : String
  headCommitId : String
  updatedAtMs : Nat
  deriving DecidableEq

/-- `format!("{repo}:{name}")`, of a commit or a branch. -/
def repoKey (repo name : String) : String :=
  repo ++ ":" ++ name

/-- The greatest `updated_at_ms`, of equal ones the last. -/
def maxByUpdatedAt (docs : List BranchDoc) : Option BranchDoc :=
  docs.foldl
    (fun best doc =>
      match best with
      | none => some doc
      | some b => if b.updatedAtMs ≤ doc.updatedAtMs then some doc else some b) none

def latestHead (docs : List BranchDoc) : Option String :=
  (maxByUpdatedAt docs).map BranchDoc.headCommitId

structure DataMeshForgeStore where
  commits : Collection CommitDoc
  branches : Collection BranchDoc
  /-- Commits are added under their keys. -/
  keyed : commits.keys = commits.docs.map CommitDoc.commitKey

namespace DataMeshForgeStore

def empty : DataMeshForgeStore :=
  ⟨Collection.empty, Collection.empty, rfl⟩

def putCommit (store : DataMeshForgeStore) (commit : CommitRecord) : DataMeshForgeStore where
  commits :=
    let key := repoKey commit.repo commit.commitId
    store.commits.createIdempotent key { record := commit, commitKey := key }
  branches := store.branches
  keyed := by
    unfold Collection.createIdempotent
    dsimp only
    split
    · exact store.keyed
    · rw [List.map_cons, ← store.keyed]

def getCommit (store : DataMeshForgeStore) (repo commitId : String) : Option CommitRecord :=
  (store.commits.query CommitDoc.commitKey (repoKey repo commitId) 1).head?.map CommitDoc.record

/-- `updatedAtMs` is the clock. -/
def setBranch (store : DataMeshForgeStore) (updatedAtMs : Nat) (repo branch commitId : String) :
    DataMeshForgeStore :=
  { store with
    branches := store.branches.create
      { branchKey := repoKey repo branch
        repo := repo
        branch := branch
        headCommitId := commitId
        updatedAtMs := updatedAtMs } }

def getBranch (store : DataMeshForgeStore) (repo branch : String) : Option String :=
  latestHead (store.branches.query BranchDoc.branchKey (repoKey repo branch) 1)

end DataMeshForgeStore

/-! ## Repositories that share a key -/

/-- One repository id is the other, a colon and what the other name begins with. -/
def Clash (repo name repo' name' : String) : Prop :=
  (∃ s, repo = repo' ++ ":" ++ s ∧ name' = s ++ ":" ++ name) ∨
    ∃ s, repo' = repo ++ ":" ++ s ∧ name = s ++ ":" ++ name'

section Keys

variable {repo name repo' name' : String}

theorem toList_repoKey (repo name : String) :
    (repoKey repo name).toList = repo.toList ++ ':' :: name.toList := by
  rw [repoKey, String.toList_append, String.toList_append, List.append_assoc]
  rfl

theorem eq_concat_iff {s t u : String} :
    s.toList = t.toList ++ ':' :: u.toList ↔ s = t ++ ":" ++ u := by
  rw [← String.toList_inj, ← toList_repoKey]
  rfl

/-- Names of different repositories have one key exactly if they clash. -/
theorem repoKey_eq_iff (hrepo : repo ≠ repo') :
    repoKey repo name = repoKey repo' name' ↔ Clash repo name repo' name' := by
  have hother : ¬ (repo.toList = repo'.toList ∧ name.toList = name'.toList) := fun h =>
    hrepo (String.toList_inj.1 h.1)
  rw [← String.toList_inj, toList_repoKey, toList_repoKey, append_sep_eq_iff, or_iff_right hother]
  have hstring (p : List Char → Prop) : (∃ s, p s) ↔ ∃ s : String, p s.toList :=
    ⟨fun ⟨s, hs⟩ => ⟨String.ofList s, by rwa [String.toList_ofList]⟩, fun ⟨s, hs⟩ => ⟨s.toList, hs⟩⟩
  rw [hstring, hstring]
  simp only [eq_concat_iff]
  rfl

end Keys

namespace DataMeshForgeStore

variable {store : DataMeshForgeStore}

theorem getBranch_eq (repo branch : String) : store.getBranch repo branch =
    (store.branches.newest BranchDoc.branchKey (repoKey repo branch)).map BranchDoc.headCommitId := by
  rw [getBranch, Collection.query_one]
  cases store.branches.newest BranchDoc.branchKey (repoKey repo branch) <;> rfl

theorem getCommit_eq (repo commitId : String) : store.getCommit repo commitId =
    (store.commits.newest CommitDoc.commitKey (repoKey repo commitId)).map CommitDoc.record := by
  rw [getCommit, Collection.query_one]
  cases store.commits.newest CommitDoc.commitKey (repoKey repo commitId) <;> rfl

/-- A move changes the head under its own key. -/
theorem getBranch_setBranch (updatedAtMs : Nat) (repo branch commitId repo' branch' : String) :
    (store.setBranch updatedAtMs repo branch commitId).getBranch repo' branch' =
      if repoKey repo branch = repoKey repo' branch' then some commitId
      else store.getBranch repo' branch' := by
  rw [getBranch_eq, getBranch_eq, setBranch, Collection.newest_create]
  split <;> rfl

/-- A commit is found under its own key, unless that is taken. -/
theorem getCommit_putCommit (commit : CommitRecord) (repo' commitId' : String) :
    (store.putCommit commit).getCommit repo' commitId' =
      if repoKey commit.repo commit.commitId = repoKey repo' commitId' ∧
        repoKey commit.repo commit.commitId ∉ store.commits.keys then some commit
      else store.getCommit repo' commitId' := by
  rw [getCommit_eq, getCommit_eq, putCommit, Collection.newest_createIdempotent]
  split <;> rfl

theorem getCommit_eq_none {repo commitId : String} (h : repoKey repo commitId ∉ store.commits.keys) :
    store.getCommit repo commitId = none := by
  rw [getCommit_eq, Collection.newest_eq_none, Option.map_none]
  intro doc hdoc heq
  rw [store.keyed] at h
  exact h (heq ▸ List.mem_map_of_mem hdoc)

/-- The newest move under the key of the branch is to the commit. -/
def RecordsHead (store : DataMeshForgeStore) (repo branch commitId : String) : Prop :=
  ∃ doc, store.branches.newest BranchDoc.branchKey (repoKey repo branch) = some doc ∧
    doc.headCommitId = commitId

/-- A commit has been stored under the key. -/
def HasKey (store : DataMeshForgeStore) (repo commitId : String) : Prop :=
  repoKey repo commitId ∈ store.commits.keys

/-- Moving a branch or storing a commit of one repository changes nothing that is read from another, exactly
if the names do not clash, or the move is to the commit the clashing branch is at and there is a commit under
the clashing id. -/
theorem repos_isolated_iff (store : DataMeshForgeStore) (updatedAtMs : Nat)
    (repo₁ repo₂ branch₁ branch₂ c id : String) (commit : CommitRecord) (hrepo : repo₁ ≠ repo₂) :
    ((store.setBranch updatedAtMs repo₁ branch₁ c).getBranch repo₂ branch₂ =
        store.getBranch repo₂ branch₂ ∧
      (store.setBranch updatedAtMs repo₁ branch₁ c).getCommit repo₂ id = store.getCommit repo₂ id ∧
      (store.putCommit { commit with repo := repo₁ }).getBranch repo₂ branch₂ =
        store.getBranch repo₂ branch₂ ∧
      (store.putCommit { commit with repo := repo₁ }).getCommit repo₂ id = store.getCommit repo₂ id) ↔
    (Clash repo₁ branch₁ repo₂ branch₂ → store.RecordsHead repo₂ branch₂ c) ∧
      (Clash repo₁ commit.commitId repo₂ id → store.HasKey repo₂ id) := by
  have hbranch : (store.setBranch updatedAtMs repo₁ branch₁ c).getBranch repo₂ branch₂ =
      store.getBranch repo₂ branch₂ ↔
        (Clash repo₁ branch₁ repo₂ branch₂ → store.RecordsHead repo₂ branch₂ c) := by
    rw [getBranch_setBranch, ← repoKey_eq_iff hrepo]
    by_cases hkey : repoKey repo₁ branch₁ = repoKey repo₂ branch₂
    · rw [if_pos hkey, getBranch_eq, eq_comm, Option.map_eq_some_iff]
      exact (imp_iff_right hkey).symm
    · rw [if_neg hkey]
      exact iff_of_true rfl fun h => absurd h hkey
  have hcommit : (store.putCommit { commit with repo := repo₁ }).getCommit repo₂ id =
      store.getCommit repo₂ id ↔
        (Clash repo₁ commit.commitId repo₂ id → store.HasKey repo₂ id) := by
    rw [getCommit_putCommit, ← repoKey_eq_iff hrepo, HasKey]
    by_cases hkey : repoKey repo₁ commit.commitId = repoKey repo₂ id
    · -- Under a key that is taken the commit is not stored.
      dsimp only
      rw [hkey, imp_iff_right rfl]
      by_cases hused : repoKey repo₂ id ∈ store.commits.keys
      · rw [if_neg fun h => h.2 hused]
        exact iff_of_true rfl hused
      · rw [if_pos ⟨rfl, hused⟩, getCommit_eq_none hused]
        exact iff_of_false (Option.some_ne_none _) hused
    · rw [if_neg fun h => hkey h.1]
      exact iff_of_true rfl fun h => absurd h hkey
  rw [hbranch, hcommit]
  exact ⟨fun h => ⟨h.1, h.2.2.2⟩, fun h => ⟨h.1, rfl, rfl, h.2⟩⟩

/-- A move of `main` in one repository and a new commit in it, seen from another repository. -/
theorem repos_isolated_iff_apart : "aivcs/web" ≠ "aivcs/api" ∧
    (((empty.setBranch 1 "aivcs/web" "main" "c1").getBranch "aivcs/api" "main" =
        empty.getBranch "aivcs/api" "main" ∧
      (empty.setBranch 1 "aivcs/web" "main" "c1").getCommit "aivcs/api" "c1" =
        empty.getCommit "aivcs/api" "c1" ∧
      (empty.putCommit ⟨"aivcs/web", "c1", "t1", [], [], "", ""⟩).getBranch "aivcs/api" "main" =
        empty.getBranch "aivcs/api" "main" ∧
      (empty.putCommit ⟨"aivcs/web", "c1", "t1", [], [], "", ""⟩).getCommit "aivcs/api" "c1" =
        empty.getCommit "aivcs/api" "c1") ↔
    (Clash "aivcs/web" "main" "aivcs/api" "main" → empty.RecordsHead "aivcs/api" "main" "c1") ∧
      (Clash "aivcs/web" "c1" "aivcs/api" "c1" → empty.HasKey "aivcs/api" "c1")) :=
  ⟨by decide, repos_isolated_iff empty 1 "aivcs/web" "aivcs/api" "main" "main" "c1" "c1"
    ⟨"aivcs/web", "c1", "t1", [], [], "", ""⟩ (by decide)⟩

/-- The branch `c` of `a:b` and the branch `b:c` of `a` are one, and so are their commits. -/
theorem repos_share_branch :
    (empty.setBranch 1 "a:b" "c" "c1").getBranch "a" "b:c" = some "c1" ∧
      empty.getBranch "a" "b:c" = none ∧
      ((empty.putCommit ⟨"a:b", "c1", "t1", [], [], "", ""⟩).getCommit "a" "b:c1").map
        CommitRecord.repo = some "a:b" ∧
      empty.getCommit "a" "b:c1" = none := by
  refine ⟨?_, ?_, ?_, ?_⟩ <;> rfl

end DataMeshForgeStore

end Forge
end Aivcs
