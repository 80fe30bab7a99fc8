import Mathlib.Data.String.Basic
import Aivcs.State.Handle

/-!
# SemanticMerge.Merge — merging the memories of two commits

`semantic-rag-merge`: two commits are compared memory by memory, conflicts are resolved by a score, and the
result is stored as a commit of its own.  The handle is one without a data-mesh, whose reads do not fail.

The scores are floats and read the clock, so whether A's is at least B's and how decisive the margin is are
parameters.
-/

namespace Aivcs
namespace SemanticMerge

open Aivcs.Lib
open Aivcs.Domain (Number Value)
open Aivcs.State

structure MemoryConflict where
  key : String
  memoryA : MemoryRecord
  memoryB : MemoryRecord

structure VectorStoreDelta where
  onlyInA : List MemoryRecord
  onlyInB : List MemoryRecord
  identical : List MemoryRecord
  conflicts : List MemoryConflict

structure AutoResolvedValue where
  value : String
  favoredBranch : Option String
  reasoning : String
  confidence : Number

structure MergeResult where
  mergeCommitId : CommitId
  autoResolved : Nat
  manualConflicts : List MemoryConflict
  summary : String

/-- What a merge takes from its surroundings. -/
structure Env where
  sha256Hex : Bytes → String
  /-- How `serde_json` writes a float. -/
  fmt : F64 → Bytes
  /-- The format `%Y-%m-%dT%H:%M:%S`. -/
  formatTime : Timestamp → String
  /-- `score_a >= score_b` -/
  favorsA : MemoryConflict → Bool
  confidence : MemoryConflict → Number
  /-- The clock at each reading. -/
  now : Nat → Timestamp
  /-- The order of the map of memories at each walk. -/
  order : Nat → Iteration String

/-! ## Differences -/

/-- `diff_memory_vectors`, from the memories of the two commits. -/
def diffMemories (memoriesA memoriesB : List MemoryRecord) : VectorStoreDelta where
  onlyInA := memoriesA.filter fun m => m.key ∉ memoriesB.map MemoryRecord.key
  onlyInB := memoriesB.filter fun m => m.key ∉ memoriesA.map MemoryRecord.key
  identical := memoriesA.filter fun memA =>
    match memoriesB.find? fun m => m.key = memA.key with
    | some memB => memA.content = memB.content
    | none => false
  conflicts := memoriesA.filterMap fun memA =>
    match memoriesB.find? fun m => m.key = memA.key with
    | some memB =>
        if memA.content ≠ memB.content then some ⟨memA.key, memA, memB⟩ else none
    | none => none

def diffMemoryVectors (store : MemoryStore) (orderA orderB : Iteration String)
    (commitA commitB : String) : VectorStoreDelta :=
  diffMemories (store.getMemories orderA commitA) (store.getMemories orderB commitB)

/-! ## Conflicts -/

/-- The fields of an object. -/
def metadataFieldCount (metadata : Value) : Nat :=
  match metadata.doc with
  | .obj ms => ms.length
  | _ => 0

/-- Where the two memories of a conflict differ. -/
def reasons (env : Env) (conflict : MemoryConflict) : List String :=
  let a := conflict.memoryA
  let b := conflict.memoryB
  let aLen := (utf8 a.content).length
  let bLen := (utf8 b.content).length
  let metaA := metadataFieldCount a.metadata
  let metaB := metadataFieldCount b.metadata
  (if aLen ≠ bLen then
    ["content length: A=" ++ toString aLen ++ " B=" ++ toString bLen ++ " chars"] else []) ++
  (if a.createdAt ≠ b.createdAt then
    ["recency: A=" ++ env.formatTime a.createdAt ++ " B=" ++ env.formatTime b.createdAt] else []) ++
  (if metaA ≠ metaB then
    ["metadata fields: A=" ++ toString metaA ++ " B=" ++ toString metaB] else [])

def resolveConflictState (env : Env) (conflict : MemoryConflict) : AutoResolvedValue :=
  let winner := if env.favorsA conflict then conflict.memoryA else conflict.memoryB
  let label := if env.favorsA conflict then "A" else "B"
  let reasons := reasons env conflict
  { value := winner.content
    favoredBranch := some label
    reasoning :=
      if reasons.isEmpty then "Chose branch " ++ label ++ ": identical signals, defaulting to A"
      else "Chose branch " ++ label ++ ": " ++ ", ".intercalate reasons
    confidence := env.confidence conflict }

/-! ## Synthesis -/

/-- A memory of a parent as the new commit takes it over. -/
def taken (newCommitId : String) (m : MemoryRecord) : MemoryRecord :=
  { m with commitId := newCommitId, id := none }

/-- The memory made of a conflict. -/
def resolvedMemory (env : Env) (now : Timestamp) (commitA commitB newCommitId : String)
    (conflict : MemoryConflict) : MemoryRecord :=
  let resolved := resolveConflictState env conflict
  (MemoryRecord.new now newCommitId conflict.key resolved.value).withMetadata
    { doc := .obj [("merged_from", .arr [.str commitA, .str commitB]),
        ("resolution", .str resolved.reasoning), ("confidence", .num resolved.confidence)]
      unique := by simp }

/-- `synthesize_memory`, from the difference; the clock is read for every conflict. -/
def synthesize (env : Env) (commitA commitB newCommitId : String) (delta : VectorStoreDelta) :
    List MemoryRecord :=
  delta.onlyInA.map (taken newCommitId) ++ delta.onlyInB.map (taken newCommitId) ++
    delta.identical.map (taken newCommitId) ++
    delta.conflicts.zipIdx.map fun x =>
      resolvedMemory env (env.now x.2) commitA commitB newCommitId x.1

def synthesizeMemory (env : Env) (store : MemoryStore) (commitA commitB newCommitId : String) :
    List MemoryRecord :=
  synthesize env commitA commitB newCommitId
    (diffMemoryVectors store (env.order 0) (env.order 1) commitA commitB)

/-! ## Merging -/

def mergeId (env : Env) (commitA commitB : String) : CommitId :=
  CommitId.fromState env.sha256Hex (utf8 ("merge:" ++ commitA ++ ":" ++ commitB))

/-- The state of the snapshot of a merge; a length is a `usize`. -/
def mergeState (commitA commitB : String) (memoryCount : Nat) : Value where
  doc := .obj [("merged_from", .arr [.str commitA, .str commitB]),
    ("memory_count", .num (.int (memoryCount % 2 ^ 64 : Nat) (by omega)))]
  unique := by simp

/-- Save the memories one after the other. -/
def saveMemories (store : MemoryStore) (memories : List MemoryRecord) : MemoryStore :=
  memories.foldl MemoryStore.saveMemory store

/-- The end of `semantic_merge`, once its snapshot is saved: the commit, the two edges and the summary. -/
def commitMerge (env : Env) (store : MemoryStore) (readings : Nat) (mergeCommitId : CommitId)
    (commitA commitB message author : String) : Except StateError MergeResult × MemoryStore :=
  let commit :=
    CommitRecord.new (env.now readings) mergeCommitId [commitA, commitB] message author
  match store.saveCommit commit with
  | (.error e, store) => (.error e, store)
  | (.ok _, store) =>
      let store :=
        store.saveCommitGraphEdgeTyped (env.now (readings + 1)) mergeCommitId.hash commitA .merge
      let store :=
        store.saveCommitGraphEdgeTyped (env.now (readings + 2)) mergeCommitId.hash commitB .merge
      -- only for the summary
      let delta := diffMemoryVectors store (env.order 2) (env.order 3) commitA commitB
      (.ok
        { mergeCommitId := mergeCommitId
          autoResolved := delta.conflicts.length
          manualConflicts := []
          summary := "Merged " ++ toString delta.onlyInA.length ++ " memories from A, " ++
            toString delta.onlyInB.length ++ " from B, resolved " ++
            toString delta.conflicts.length ++ " conflicts" }, store)

/-- `semantic_merge`.  The clock is read for the conflicts, the snapshot, the commit and the two edges; the
map of memories is walked twice for either difference. -/
def semanticMerge (env : Env) (store : MemoryStore) (commitA commitB message author : String) :
    Except StateError MergeResult × MemoryStore :=
  let mergeCommitId := mergeId env commitA commitB
  let mergedMemories := synthesizeMemory env store commitA commitB mergeCommitId.hash
  -- the memories are saved before anything can be refused
  let store := saveMemories store mergedMemories
  let count := mergedMemories.length
  match store.saveSnapshot env.fmt (env.now count) mergeCommitId (mergeState commitA commitB count) with
  | (.error e, store) => (.error e, store)
  | (.ok _, store) =>
      commitMerge env store (count + 1) mergeCommitId commitA commitB message author

/-- Surroundings in which the digests of the merge of `main` and `fork` are those of SHA-256. -/
def demoEnv : Env where
  sha256Hex := tableDigest [
    (utf8 "merge:main:fork", "3d8da18d7eeff41875a40e65745530545ace9fd0a748f3f02a73645fc5cba0ad"),
    (utf8 "LN" ++ [0] ++
        utf8 "S:3d8da18d7eeff41875a40e65745530545ace9fd0a748f3f02a73645fc5cba0ad" ++ [0] ++ utf8 "EN",
      "c6b2cb583cf51cd423e42fc3d68d1ab2b45c565a2f6fd00816f60e6b9d6d1f0a")]
  fmt _ := utf8 "0.5"
  formatTime _ := "1970-01-01T00:00:00"
  favorsA _ := true
  confidence _ := .int 1 (by decide)
  now i := i
  order _ := Iteration.sorted String

end SemanticMerge
end Aivcs
