import Aivcs.Domain.Digest
import Aivcs.Lib.Hash
import Aivcs.State.Types

/-!
# State.Handle — commits, snapshots, memories and edges of the in-process store

The part of `SurrealHandle` that holds commits: `commits`, `snapshots`, `memories` and `edges` of the
in-process `MemoryStore`, used when no data-mesh is configured.  A commit or a snapshot is saved once; a
memory is stored under its commit id and key, and saving it again replaces it.
-/

namespace Aivcs
namespace State

open Aivcs.Lib
open Aivcs.Domain (Number Value numberText)

/-- The errors of the operations below. -/
inductive StateError where
  | transaction (message : String)
  deriving DecidableEq, Repr

/-! ## Records -/

structure CommitId where
  hash : String
  logicHash : Option String
  stateHash : String
  envHash : Option String
  deriving DecidableEq

/-- A component that may be missing, with its marker. -/
def CommitId.marked : Option String → Bytes
  | some hash => utf8 "S" ++ utf8 hash
  | none => utf8 "N"

/-- `CommitId::new`. -/
def CommitId.new (sha256Hex : Bytes → String) (logicHash : Option String) (stateHash : String)
    (envHash : Option String) : CommitId where
  hash := sha256Hex (utf8 "L" ++ marked logicHash ++ [0] ++ utf8 "S:" ++ utf8 stateHash ++ [0] ++
    utf8 "E" ++ marked envHash)
  logicHash := logicHash
  stateHash := stateHash
  envHash := envHash

def CommitId.fromState (sha256Hex : Bytes → String) (state : Bytes) : CommitId :=
  CommitId.new sha256Hex none (sha256Hex state) none

structure CommitRecord where
  id : Option String
  commitId : CommitId
  parentIds : List String
  message : String
  author : String
  createdAt : Timestamp
  deriving DecidableEq

def CommitRecord.new (now : Timestamp) (commitId : CommitId) (parentIds : List String)
    (message author : String) : CommitRecord where
  id := none
  commitId := commitId
  parentIds := parentIds
  message := message
  author := author
  createdAt := now

structure SnapshotRecord where
  id : Option String
  commitId : String
  state : Value
  sizeBytes : Nat
  createdAt : Timestamp

/-- `fmt` is how `serde_json` writes a float. -/
def SnapshotRecord.new (fmt : F64 → Bytes) (now : Timestamp) (commitId : String) (state : Value) :
    SnapshotRecord where
  id := none
  commitId := commitId
  state := state
  sizeBytes := (state.doc.render (numberText fmt)).length
  createdAt := now

structure MemoryRecord where
  id : Option String
  commitId : String
  key : String
  content : String
  /-- The bits of the vector's `f32`s. -/
  embedding : Option (List UInt32)
  metadata : Value
  createdAt : Timestamp

def MemoryRecord.new (now : Timestamp) (commitId key content : String) : MemoryRecord where
  id := none
  commitId := commitId
  key := key
  content := content
  embedding := none
  metadata := ⟨.obj [], by simp⟩
  createdAt := now

def MemoryRecord.withMetadata (record : MemoryRecord) (metadata : Value) : MemoryRecord :=
  { record with metadata := metadata }

inductive EdgeType where
  | normal
  | merge
  | fork
  deriving DecidableEq

structure GraphEdge where
  childId : String
  parentId : String
  edgeType : EdgeType
  createdAt : Timestamp
  deriving DecidableEq

/-! ## The store -/

/-- The key of a memory. -/
def memoryKey (commitId key : String) : String :=
  commitId ++ ":" ++ key

structure MemoryStore where
  commits : HashMap String CommitRecord
  snapshots : HashMap String SnapshotRecord
  memories : HashMap String MemoryRecord
  edges : List GraphEdge
  /-- Memories are under their keys. -/
  keyed : ∀ k m, memories.lookup k = some m → k = memoryKey m.commitId m.key

namespace MemoryStore

theorem keyed_empty (k : String) (m : MemoryRecord)
    (h : (∅ : HashMap String MemoryRecord).lookup k = some m) : k = memoryKey m.commitId m.key := by
  simp at h

/-- `MemoryStore::default`. -/
def empty : MemoryStore where
  commits := ∅
  snapshots := ∅
  memories := ∅
  edges := []
  keyed := keyed_empty

def saveCommit (store : MemoryStore) (record : CommitRecord) :
    Except StateError CommitRecord × MemoryStore :=
  let key := record.commitId.hash
  let stored := { record with id := some (record.id.getD ("commit:" ++ key)) }
  if key ∈ store.commits then
    (.error (.transaction ("Commit already exists: " ++ key)), store)
  else
    (.ok stored, { store with commits := store.commits.insert key stored })

def getCommit (store : MemoryStore) (commitHash : String) : Option CommitRecord :=
  store.commits.lookup commitHash

def saveSnapshot (store : MemoryStore) (fmt : F64 → Bytes) (now : Timestamp) (commitId : CommitId)
    (state : Value) : Except StateError Unit × MemoryStore :=
  let key := commitId.hash
  let stored := { SnapshotRecord.new fmt now key state with id := some ("snapshot:" ++ key) }
  if key ∈ store.snapshots then
    (.error (.transaction ("Snapshot already exists for commit " ++ key)), store)
  else
    (.ok (), { store with snapshots := store.snapshots.insert key stored })

def saveCommitGraphEdgeTyped (store : MemoryStore) (now : Timestamp) (childId parentId : String)
    (edgeType : EdgeType) : MemoryStore :=
  { store with edges := store.edges ++ [⟨childId, parentId, edgeType, now⟩] }

end MemoryStore

/-- The record as `save_memory` stores it. -/
def MemoryRecord.stored (record : MemoryRecord) : MemoryRecord :=
  { record with id := some (record.id.getD ("memory:" ++ memoryKey record.commitId record.key)) }

@[simp] theorem MemoryRecord.stored_commitId (record : MemoryRecord) :
    record.stored.commitId = record.commitId := rfl

@[simp] theorem MemoryRecord.stored_key (record : MemoryRecord) : record.stored.key = record.key := rfl

@[simp] theorem MemoryRecord.stored_content (record : MemoryRecord) :
    record.stored.content = record.content := rfl

namespace MemoryStore

/-- What `save_memory` does to the store; it returns the stored record. -/
def saveMemory (store : MemoryStore) (record : MemoryRecord) : MemoryStore where
  commits := store.commits
  snapshots := store.snapshots
  memories := store.memories.insert (memoryKey record.commitId record.key) record.stored
  edges := store.edges
  keyed k m h := by
    rw [HashMap.lookup_insert_apply] at h
    split at h
    · rename_i hk
      rw [hk, ← Option.some.inj h]
      rfl
    · exact store.keyed k m h

/-- `order` is the order in which the values of the map are walked. -/
def getMemories (store : MemoryStore) (order : Iteration String) (commitId : String) :
    List MemoryRecord :=
  let values := (order.list store.memories.keys).filterMap fun key => store.memories.lookup key
  (values.filter fun m => m.commitId = commitId).insertionSort fun m m' => m.createdAt ≤ m'.createdAt

/-! ## What is read and written -/

section Memories

variable {store : MemoryStore} {order : Iteration String} {commitId : String} {m : MemoryRecord}

theorem lookup_saveMemory (record : MemoryRecord) (key : String) :
    (store.saveMemory record).memories.lookup key =
      if key = memoryKey record.commitId record.key then some record.stored
      else store.memories.lookup key :=
  HashMap.lookup_insert_apply _ _ _ _

/-- The memories of a commit are those stored under its id and their keys. -/
theorem mem_getMemories : m ∈ store.getMemories order commitId ↔
    m.commitId = commitId ∧ store.memories.lookup (memoryKey m.commitId m.key) = some m := by
  simp only [getMemories, List.mem_insertionSort, List.mem_filter, List.mem_filterMap,
    order.mem_list, Finmap.mem_keys, decide_eq_true_eq]
  constructor
  · rintro ⟨⟨k, -, hk⟩, hcommit⟩
    exact ⟨hcommit, store.keyed k m hk ▸ hk⟩
  · rintro ⟨hcommit, hm⟩
    exact ⟨⟨_, Finmap.mem_of_lookup_eq_some hm, hm⟩, hcommit⟩

/-- A commit has one memory under a key. -/
theorem nodup_getMemories (store : MemoryStore) (order : Iteration String) (commitId : String) :
    ((store.getMemories order commitId).map MemoryRecord.key).Nodup := by
  have hvalues : ((order.list store.memories.keys).filterMap fun key =>
      store.memories.lookup key).Pairwise fun m m' =>
        memoryKey m.commitId m.key ≠ memoryKey m'.commitId m'.key := by
    refine List.Pairwise.filterMap _ ?_ (order.nodup store.memories.keys)
    intro k k' hne m hm m' hm'
    rw [← store.keyed k m hm, ← store.keyed k' m' hm']
    exact hne
  -- Among the memories of one commit the keys of the store differ in the second half.
  rw [getMemories, ((List.perm_insertionSort _ _).map _).nodup_iff]
  refine List.pairwise_map.2 ((hvalues.filter _).imp_of_mem ?_)
  intro m m' hm hm' hne hkey
  have hcommit := of_decide_eq_true (List.mem_filter.1 hm).2
  have hcommit' := of_decide_eq_true (List.mem_filter.1 hm').2
  exact hne (by rw [hcommit, hcommit', hkey])

end Memories

end MemoryStore

end State
end Aivcs
