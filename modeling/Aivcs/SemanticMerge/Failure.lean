import Aivcs.SemanticMerge.Completeness

/-!
# SemanticMerge.Failure — what a refused merge leaves behind

`semantic_merge` saves the memories before the snapshot and the snapshot before the commit, and either of
these is refused if there is one under the id, which depends on the two parents only.  So a merge that is
repeated fails with its memories already saved, and nothing takes them back.

* `semanticMerge_cases` — the ways a merge can end;
* `semanticMerge_confined` — a failed merge touches no commit and no edge, and nothing under another id.
-/

namespace Aivcs
namespace SemanticMerge

open Aivcs.Lib
open Aivcs.Domain (Number Value)
open Aivcs.State

/-! ## Saving memories -/

section Saving

variable {store : MemoryStore}

/-- What no save of a memory changes. -/
theorem saveMemories_keeps {β : Type} (part : MemoryStore → β)
    (hpart : ∀ store m, part (MemoryStore.saveMemory store m) = part store)
    (memories : List MemoryRecord) : part (saveMemories store memories) = part store := by
  induction memories generalizing store with
  | nil =>
      rfl
  | cons m memories ih =>
      exact ih.trans (hpart store m)

theorem lookup_saveMemories_of_notMem {memories : List MemoryRecord} {key : String}
    (h : key ∉ memories.map fun m => memoryKey m.commitId m.key) :
    (saveMemories store memories).memories.lookup key = store.memories.lookup key := by
  induction memories generalizing store with
  | nil =>
      rfl
  | cons m memories ih =>
      rw [List.map_cons, List.mem_cons, not_or] at h
      calc (saveMemories (store.saveMemory m) memories).memories.lookup key
          = (store.saveMemory m).memories.lookup key := ih h.2
        _ = store.memories.lookup key := by rw [MemoryStore.lookup_saveMemory, if_neg h.1]

/-- Memories under different keys are all there in the end. -/
theorem lookup_saveMemories {memories : List MemoryRecord}
    (hnodup : (memories.map fun m => memoryKey m.commitId m.key).Nodup) {m : MemoryRecord}
    (hm : m ∈ memories) :
    (saveMemories store memories).memories.lookup (memoryKey m.commitId m.key) = some m.stored := by
  induction memories generalizing store with
  | nil =>
      exact absurd hm List.not_mem_nil
  | cons m' memories ih =>
      obtain ⟨hnew, hnodup⟩ := List.nodup_cons.1 hnodup
      rcases List.mem_cons.1 hm with rfl | hm
      · calc (saveMemories (store.saveMemory m) memories).memories.lookup (memoryKey m.commitId m.key)
            = (store.saveMemory m).memories.lookup (memoryKey m.commitId m.key) :=
              lookup_saveMemories_of_notMem hnew
          _ = some m.stored := by rw [MemoryStore.lookup_saveMemory, if_pos rfl]
      · exact ih hnodup hm

end Saving

/-! ## The merge -/

/-- The commit of a merge. -/
structure MergeCommit (id : CommitId) (commitA commitB message author : String)
    (commit : CommitRecord) : Prop where
  commitId : commit.commitId = id
  parentIds : commit.parentIds = [commitA, commitB]
  message : commit.message = message
  author : commit.author = author

/-- An edge of a merge. -/
structure MergeEdge (id : CommitId) (parent : String) (edge : GraphEdge) : Prop where
  childId : edge.childId = id.hash
  parentId : edge.parentId = parent
  edgeType : edge.edgeType = .merge

section Merge

variable (env : Env) (store : MemoryStore) (commitA commitB message author : String)

/-- After the snapshot a merge fails if there is a commit under its id, or saves a commit and two edges. -/
theorem commitMerge_cases (readings : Nat) (id : CommitId) :
    (id.hash ∈ store.commits ∧
      commitMerge env store readings id commitA commitB message author =
        (.error (.transaction ("Commit already exists: " ++ id.hash)), store)) ∨
    (id.hash ∉ store.commits ∧ ∃ res commit edgeA edgeB,
      commitMerge env store readings id commitA commitB message author =
        (.ok res, { store with
          commits := store.commits.insert id.hash commit
          edges := store.edges ++ [edgeA] ++ [edgeB] }) ∧
      res.mergeCommitId = id ∧ MergeCommit id commitA commitB message author commit ∧
      MergeEdge id commitA edgeA ∧ MergeEdge id commitB edgeB) := by
  unfold commitMerge MemoryStore.saveCommit
  dsimp only [CommitRecord.new]
  by_cases hcommit : id.hash ∈ store.commits
  · rw [if_pos hcommit]
    exact .inl ⟨hcommit, rfl⟩
  · rw [if_neg hcommit]
    exact .inr ⟨hcommit, _, _, _, _, rfl, rfl, ⟨rfl, rfl, rfl, rfl⟩, ⟨rfl, rfl, rfl⟩, rfl, rfl, rfl⟩

/-- The memories of the merge. -/
def mergedMemories : List MemoryRecord :=
  synthesizeMemory env store commitA commitB (mergeId env commitA commitB).hash

/-- The store with the memories of the merge. -/
def withMemories : MemoryStore :=
  saveMemories store (mergedMemories env store commitA commitB)

/-- The store with the snapshot of the merge, too. -/
def withSnapshot : MemoryStore :=
  ((withMemories env store commitA commitB).saveSnapshot env.fmt
    (env.now (mergedMemories env store commitA commitB).length) (mergeId env commitA commitB)
    (mergeState commitA commitB (mergedMemories env store commitA commitB).length)).2

theorem withMemories_spec : (withMemories env store commitA commitB).commits = store.commits ∧
    (withMemories env store commitA commitB).snapshots = store.snapshots ∧
    (withMemories env store commitA commitB).edges = store.edges :=
  ⟨saveMemories_keeps MemoryStore.commits (fun _ _ => rfl) _,
    saveMemories_keeps MemoryStore.snapshots (fun _ _ => rfl) _,
    saveMemories_keeps MemoryStore.edges (fun _ _ => rfl) _⟩

/-- A merge fails at the snapshot, with its memories saved, or goes on with the snapshot saved. -/
theorem semanticMerge_eq :
    semanticMerge env store commitA commitB message author =
      match (withMemories env store commitA commitB).saveSnapshot env.fmt
        (env.now (mergedMemories env store commitA commitB).length) (mergeId env commitA commitB)
        (mergeState commitA commitB (mergedMemories env store commitA commitB).length) with
      | (.error e, store) => (.error e, store)
      | (.ok _, after) => commitMerge env after ((mergedMemories env store commitA commitB).length + 1)
          (mergeId env commitA commitB) commitA commitB message author := rfl

theorem semanticMerge_cases :
    ((mergeId env commitA commitB).hash ∈ store.snapshots ∧
      semanticMerge env store commitA commitB message author =
        (.error (.transaction ("Snapshot already exists for commit " ++
          (mergeId env commitA commitB).hash)), withMemories env store commitA commitB)) ∨
    ((mergeId env commitA commitB).hash ∉ store.snapshots ∧ ∃ readings,
      semanticMerge env store commitA commitB message author =
        commitMerge env (withSnapshot env store commitA commitB) readings (mergeId env commitA commitB)
          commitA commitB message author) := by
  obtain ⟨-, hsnapshots, -⟩ := withMemories_spec env store commitA commitB
  rw [semanticMerge_eq, withSnapshot, MemoryStore.saveSnapshot]
  dsimp only
  rw [hsnapshots]
  by_cases hsnap : (mergeId env commitA commitB).hash ∈ store.snapshots
  · rw [if_pos hsnap]
    exact .inl ⟨hsnap, rfl⟩
  · rw [if_neg hsnap]
    exact .inr ⟨hsnap, _, rfl⟩

theorem withSnapshot_eq (hsnap : (mergeId env commitA commitB).hash ∉ store.snapshots) :
    ∃ snapshot, withSnapshot env store commitA commitB =
        { withMemories env store commitA commitB with
          snapshots := store.snapshots.insert (mergeId env commitA commitB).hash snapshot } ∧
      snapshot.commitId = (mergeId env commitA commitB).hash ∧
      snapshot.state = mergeState commitA commitB (mergedMemories env store commitA commitB).length := by
  obtain ⟨-, hsnapshots, -⟩ := withMemories_spec env store commitA commitB
  rw [withSnapshot, MemoryStore.saveSnapshot]
  dsimp only
  rw [hsnapshots, if_neg hsnap]
  exact ⟨_, rfl, rfl, rfl⟩

/-- The memories of a merge are under its id. -/
theorem memoryKey_mergedMemories :
    (mergedMemories env store commitA commitB).map (fun m => memoryKey m.commitId m.key) =
      (mergedMemories env store commitA commitB).map fun m =>
        memoryKey (mergeId env commitA commitB).hash m.key := by
  refine List.map_congr_left fun m hm => ?_
  rw [(content_of_mem_synthesize hm).1]

/-- Saving the memories of a merge stores all of them and changes nothing under another key. -/
theorem lookup_withMemories :
    (∀ m ∈ mergedMemories env store commitA commitB,
      (withMemories env store commitA commitB).memories.lookup
        (memoryKey (mergeId env commitA commitB).hash m.key) = some m.stored) ∧
    ∀ k, (∀ m ∈ mergedMemories env store commitA commitB,
        k ≠ memoryKey (mergeId env commitA commitB).hash m.key) →
      (withMemories env store commitA commitB).memories.lookup k = store.memories.lookup k := by
  have hkeys := memoryKey_mergedMemories env store commitA commitB
  constructor
  · intro m hm
    have hnodup : ((mergedMemories env store commitA commitB).map fun m =>
        memoryKey m.commitId m.key).Nodup := by
      -- Under one commit id different keys make different keys of the store.
      have hinj : Function.Injective (memoryKey (mergeId env commitA commitB).hash) :=
        fun key key' heq => (String.append_right_inj _).1 heq
      have hmapped := (nodup_keys_synthesizeMemory env store commitA commitB
        (mergeId env commitA commitB).hash).map hinj
      rw [List.map_map] at hmapped
      rw [hkeys]
      exact hmapped
    have hcommit : m.commitId = (mergeId env commitA commitB).hash := (content_of_mem_synthesize hm).1
    rw [← hcommit]
    exact lookup_saveMemories hnodup hm
  · intro k hk
    refine lookup_saveMemories_of_notMem fun hmem => ?_
    rw [hkeys] at hmem
    obtain ⟨m, hm, rfl⟩ := List.mem_map.1 hmem
    exact hk m hm rfl

end Merge

/-- A failed merge leaves the commits and the edges as they were; of memories and snapshots only those of its
own id can change.  A merge that succeeds leaves its commit, its snapshot, all its memories and both edges. -/
theorem semanticMerge_confined (env : Env) (store : MemoryStore)
    (commitA commitB message author : String) :
    let id := mergeId env commitA commitB
    let merged := synthesizeMemory env store commitA commitB id.hash
    let result := semanticMerge env store commitA commitB message author
    (∀ e, result.1 = .error e →
      result.2.commits = store.commits ∧ result.2.edges = store.edges ∧
      (∀ k, (∀ m ∈ merged, k ≠ memoryKey id.hash m.key) →
        result.2.memories.lookup k = store.memories.lookup k) ∧
      ∀ k, k ≠ id.hash ∨ k ∈ store.snapshots →
        result.2.snapshots.lookup k = store.snapshots.lookup k) ∧
    ∀ res, result.1 = .ok res →
      res.mergeCommitId = id ∧
      (∃ commit, result.2.getCommit id.hash = some commit ∧
        MergeCommit id commitA commitB message author commit) ∧
      (∃ snapshot, result.2.snapshots.lookup id.hash = some snapshot ∧ snapshot.commitId = id.hash ∧
        snapshot.state = mergeState commitA commitB merged.length) ∧
      (∀ m ∈ merged, result.2.memories.lookup (memoryKey id.hash m.key) = some m.stored) ∧
      ∃ edgeA edgeB, result.2.edges = store.edges ++ [edgeA] ++ [edgeB] ∧ MergeEdge id commitA edgeA ∧
        MergeEdge id commitB edgeB := by
  intro id merged result
  obtain ⟨hstored, hother⟩ := lookup_withMemories env store commitA commitB
  obtain ⟨hcommits, hsnapshots, hedges⟩ := withMemories_spec env store commitA commitB
  have hresult : result = semanticMerge env store commitA commitB message author := rfl
  rcases semanticMerge_cases env store commitA commitB message author with
    ⟨-, hfail⟩ | ⟨hsnap, readings, hgoes⟩
  · -- Refused at the snapshot: only the memories have been saved.
    rw [hresult, hfail]
    refine ⟨fun e _ => ⟨hcommits, hedges, hother, fun k _ => by rw [hsnapshots]⟩, ?_⟩
    intro res hres
    cases hres
  · obtain ⟨snapshot, hwith, hid, hstate⟩ := withSnapshot_eq env store commitA commitB hsnap
    rw [hresult, hgoes, hwith]
    rcases commitMerge_cases env _ commitA commitB message author readings id with
      ⟨-, hfail⟩ | ⟨-, res, commit, edgeA, edgeB, hdone, hres, hcommit, hA, hB⟩
    · -- Refused at the commit: the snapshot stays as well.
      rw [hfail]
      refine ⟨fun e _ => ⟨hcommits, hedges, hother, ?_⟩, ?_⟩
      · intro k hk
        have hne : k ≠ id.hash := hk.elim (fun hne => hne) fun hmem heq => hsnap (heq ▸ hmem)
        exact Finmap.lookup_insert_of_ne _ hne
      · intro res hres
        cases hres
    · rw [hdone]
      refine ⟨?_, ?_⟩
      · intro e he
        cases he
      · intro res' hres'
        obtain rfl := Except.ok.inj hres'
        refine ⟨hres, ⟨commit, Finmap.lookup_insert _, hcommit⟩,
          ⟨snapshot, Finmap.lookup_insert _, hid, hstate⟩, hstored, edgeA, edgeB, ?_, hA, hB⟩
        rw [← hedges]

/-! ### Merging twice -/

/-- A store in which `main` and `fork` were merged, and which got a memory of `main` afterwards. -/
def mergedOnce : MemoryStore :=
  (semanticMerge demoEnv .empty "main" "fork" "merge" "ops").2.saveMemory
    (.new 9 "main" "plan" "write the parser")

/-- The second merge is refused for its snapshot, and its memory stays. -/
theorem semanticMerge_failure_leaves_memory :
    (semanticMerge demoEnv mergedOnce "main" "fork" "merge again" "ops").1 = .error (.transaction
        ("Snapshot already exists for commit " ++
          "c6b2cb583cf51cd423e42fc3d68d1ab2b45c565a2f6fd00816f60e6b9d6d1f0a")) ∧
      mergedOnce.memories.lookup
        "c6b2cb583cf51cd423e42fc3d68d1ab2b45c565a2f6fd00816f60e6b9d6d1f0a:plan" = none ∧
      (semanticMerge demoEnv mergedOnce "main" "fork" "merge again" "ops").2.memories.lookup
        "c6b2cb583cf51cd423e42fc3d68d1ab2b45c565a2f6fd00816f60e6b9d6d1f0a:plan" ≠ none := by
  refine ⟨?_, ?_, ?_⟩
  · rfl
  · rfl
  · decide

end SemanticMerge
end Aivcs
