import Aivcs.Lib.QueueSearch
import Aivcs.State.Handle

/-!
# State.History — the commits before a commit

`get_commit_history` of the in-process `SurrealHandle`: breadth first from a commit to its parents, which
are those of its graph edges; a commit without edges falls back to the parent ids of its record, of which
the first is followed.
-/

namespace Aivcs
namespace State

open Aivcs.Lib Aivcs.Lib.Digraph
open Relation

namespace MemoryStore

def getParents (store : MemoryStore) (childId : String) : List String :=
  (store.edges.filter fun edge => edge.childId = childId).map GraphEdge.parentId

/-- The parents that the search follows. -/
def followedParents (store : MemoryStore) (commitHash : String) (commit : CommitRecord) : List String :=
  let parents := store.getParents commitHash
  -- only a commit that no edge leaves is asked for the parents of its record
  if parents = [] then commit.parentIds.head?.toList else parents

def followed (store : MemoryStore) (commitHash : String) : Option (CommitRecord × List String) :=
  (store.getCommit commitHash).map fun commit => (commit, store.followedParents commitHash commit)

/-- Every round takes a hash from the queue, and every hash is queued once: the start, or a parent that an
edge or a record names. -/
def getCommitHistory (store : MemoryStore) (startCommit : String) (limit : Nat) :
    Option (List CommitRecord) :=
  collect store.followed limit (store.edges.length + store.commits.keys.card + 2) [] {startCommit}
    [startCommit]

/-! ## Parents -/

/-- The parents of a commit: those of its edges or, without any, those of its record. -/
def parents (store : MemoryStore) (commitHash : String) (commit : CommitRecord) : List String :=
  let parents := store.getParents commitHash
  if parents = [] then commit.parentIds else parents

/-- The commit is stored, and this is one of its parents. -/
def Parent (store : MemoryStore) (child parent : String) : Prop :=
  ∃ commit, store.getCommit child = some commit ∧ parent ∈ store.parents child commit

/-- As `Parent`, and the commit has an edge or no more than one parent id. -/
def SureParent (store : MemoryStore) (child parent : String) : Prop :=
  ∃ commit, store.getCommit child = some commit ∧ parent ∈ store.parents child commit ∧
    (store.getParents child ≠ [] ∨ commit.parentIds.length ≤ 1)

section History

variable {store : MemoryStore} {child parent start : String}

theorem parent_of_storedSucc (h : StoredSucc store.followed child parent) : store.Parent child parent := by
  obtain ⟨r, ws, hfollowed, hmem⟩ := h
  obtain ⟨commit, hcommit, heq⟩ := Option.map_eq_some_iff.1 hfollowed
  cases heq
  refine ⟨r, hcommit, ?_⟩
  unfold followedParents at hmem
  unfold parents
  by_cases hnil : store.getParents child = []
  · simp only [if_pos hnil, Option.mem_toList] at hmem ⊢
    exact List.mem_of_mem_head? hmem
  · simp only [if_neg hnil] at hmem ⊢
    exact hmem

theorem storedSucc_of_sureParent (h : store.SureParent child parent) :
    StoredSucc store.followed child parent := by
  obtain ⟨commit, hcommit, hmem, hsure⟩ := h
  refine ⟨commit, store.followedParents child commit, ?_, ?_⟩
  · rw [followed, hcommit]
    rfl
  unfold followedParents
  unfold parents at hmem
  by_cases hnil : store.getParents child = []
  · simp only [if_pos hnil] at hmem ⊢
    have hone := hsure.resolve_left (not_not_intro hnil)
    -- with one parent id the first is the only one
    match hids : commit.parentIds with
    | [] =>
        rw [hids] at hmem
        cases hmem
    | [p] =>
        rw [hids] at hmem
        exact hmem
    | p :: q :: rest =>
        rw [hids] at hone
        simp at hone
  · simp only [if_neg hnil] at hmem ⊢
    exact hmem

theorem followed_ne_none : store.followed child ≠ none ↔ child ∈ store.commits := by
  rw [followed, Ne, Option.map_eq_none_iff]
  exact ⟨fun h => Finmap.mem_iff.2 (Option.ne_none_iff_exists'.1 h),
    fun h hnone => absurd h (Finmap.lookup_eq_none.1 hnone)⟩

/-- The first parent id of a stored commit. -/
def firstParent (store : MemoryStore) (hash : String) : List String :=
  (store.commits.lookup hash).elim [] fun commit => commit.parentIds.head?.toList

/-- The hashes that a walk can queue. -/
def mentioned (store : MemoryStore) : Finset String :=
  (store.edges.map GraphEdge.parentId).toFinset ∪
    store.commits.keys.biUnion fun hash => (store.firstParent hash).toFinset

theorem mem_mentioned {r : CommitRecord} {ws : List String} (h : store.followed child = some (r, ws)) :
    ∀ parent ∈ ws, parent ∈ store.mentioned := by
  intro parent hparent
  obtain ⟨commit, hcommit, heq⟩ := Option.map_eq_some_iff.1 h
  cases heq
  unfold followedParents at hparent
  rw [mentioned, Finset.mem_union, Finset.mem_biUnion]
  by_cases hnil : store.getParents child = []
  · simp only [if_pos hnil] at hparent
    refine Or.inr ⟨child, Finmap.mem_keys.2 (Finmap.mem_iff.2 ⟨r, hcommit⟩), ?_⟩
    have hlookup : store.commits.lookup child = some r := hcommit
    rw [firstParent, hlookup, List.mem_toFinset]
    exact hparent
  · simp only [if_neg hnil] at hparent
    obtain ⟨edge, hedge, rfl⟩ := List.mem_map.1 hparent
    exact Or.inl (List.mem_toFinset.2 (List.mem_map_of_mem (List.mem_of_mem_filter hedge)))

theorem length_firstParent_le (store : MemoryStore) (hash : String) :
    (store.firstParent hash).length ≤ 1 := by
  unfold firstParent
  cases store.commits.lookup hash with
  | none =>
      exact Nat.zero_le 1
  | some commit =>
      cases hids : commit.parentIds <;> simp [hids]

/-- An edge mentions one hash, and so does a record. -/
theorem card_mentioned (store : MemoryStore) :
    store.mentioned.card ≤ store.edges.length + store.commits.keys.card := by
  have hedges : (store.edges.map GraphEdge.parentId).toFinset.card ≤ store.edges.length :=
    (List.toFinset_card_le _).trans_eq (List.length_map _)
  have hrecords : (store.commits.keys.biUnion fun hash => (store.firstParent hash).toFinset).card ≤
      store.commits.keys.card * 1 :=
    Finset.card_biUnion_le_card_mul _ _ 1 fun hash _ =>
      (List.toFinset_card_le _).trans (store.length_firstParent_le hash)
  calc store.mentioned.card
      ≤ (store.edges.map GraphEdge.parentId).toFinset.card +
          (store.commits.keys.biUnion fun hash => (store.firstParent hash).toFinset).card :=
        Finset.card_union_le _ _
    _ ≤ store.edges.length + store.commits.keys.card * 1 := Nat.add_le_add hedges hrecords
    _ = store.edges.length + store.commits.keys.card := by rw [Nat.mul_one]

/-- The history of a commit: it finishes, keeps the limit, and collects stored ancestors, none of them
twice; with room for all commits it has every stored one that is reached through commits with an edge or
one parent id at most. -/
theorem commit_history_complete (store : MemoryStore) (start : String) (limit : Nat) :
    ∃ history, store.getCommitHistory start limit = some history ∧ history.length ≤ limit ∧
      ∃ hashes : List String, hashes.Nodup ∧ history.map some = hashes.map store.getCommit ∧
        (∀ hash ∈ hashes, ReflTransGen store.Parent start hash) ∧
        (store.commits.keys.card ≤ limit →
          ∀ hash ∈ store.commits, ReflTransGen store.SureParent start hash → hash ∈ hashes) := by
  have hfuel : store.mentioned.card + 1 < store.edges.length + store.commits.keys.card + 2 :=
    Nat.succ_lt_succ (Nat.lt_succ_of_le store.card_mentioned)
  obtain ⟨hashes, history, hcollect, hcollected⟩ :=
    collect_spec store.followed start (fun _ _ _ => mem_mentioned) limit hfuel
  refine ⟨history, hcollect, hcollected.length_le, hashes, hcollected.nodup, ?_, ?_, ?_⟩
  · rw [hcollected.records]
    refine List.map_congr_left ?_
    intro hash _
    rw [followed, Option.map_map]
    exact Option.map_id_apply
  · intro hash hhash
    exact ReflTransGen.mono (fun _ _ => parent_of_storedSucc) _ _ (hcollected.sound hash hhash)
  · intro hlimit hash hstored hreach
    exact hcollected.complete_of_le (fun _ h => Finmap.mem_keys.2 (followed_ne_none.1 h)) hlimit
      (ReflTransGen.mono (fun _ _ => storedSucc_of_sureParent) _ _ hreach) (followed_ne_none.2 hstored)

end History

/-- One of the parents that the record or the edges of a stored commit name. -/
def NamedParent (store : MemoryStore) (child parent : String) : Prop :=
  ∃ commit, store.getCommit child = some commit ∧
    (parent ∈ commit.parentIds ∨ parent ∈ store.getParents child)

def demoCommit (hash : String) (parentIds : List String) : CommitRecord :=
  CommitRecord.new 0 ⟨hash, none, "", none⟩ parentIds "message" "author"

/-- A commit with two parents, of which one has an edge. -/
def oneEdgeStore : MemoryStore where
  commits := HashMap.ofList
    [("m", demoCommit "m" ["a", "b"]), ("a", demoCommit "a" []), ("b", demoCommit "b" [])]
  snapshots := ∅
  memories := ∅
  edges := [⟨"m", "a", .merge, 0⟩]
  keyed := keyed_empty

theorem history_misses_a_named_parent :
    ¬ ∀ (store : MemoryStore) (start : String) (limit : Nat),
      ∃ history, store.getCommitHistory start limit = some history ∧
        ∃ hashes : List String, history.map some = hashes.map store.getCommit ∧
          (store.commits.keys.card ≤ limit →
            ∀ hash ∈ store.commits, ReflTransGen store.NamedParent start hash → hash ∈ hashes) := by
  intro h
  obtain ⟨history, hhistory, hashes, hrecords, hcomplete⟩ := h oneEdgeStore "m" 3
  have hrun : oneEdgeStore.getCommitHistory "m" 3 =
      some [demoCommit "m" ["a", "b"], demoCommit "a" []] := by
    decide
  have hreach : ReflTransGen oneEdgeStore.NamedParent "m" "b" :=
    ReflTransGen.single ⟨demoCommit "m" ["a", "b"], rfl, Or.inl (by decide)⟩
  have hmem := hcomplete (by decide) "b" (by decide) hreach
  rw [hrun] at hhistory
  cases hhistory
  have hb : oneEdgeStore.getCommit "b" ∈ hashes.map oneEdgeStore.getCommit := List.mem_map_of_mem hmem
  rw [← hrecords] at hb
  exact absurd hb (by decide)

end MemoryStore

end State
end Aivcs
