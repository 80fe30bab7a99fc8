import Aivcs.Lib.Proc
import Aivcs.Lib.Text
import Aivcs.SemanticMerge.Merge
import Aivcs.State.History

/-!
# Cli.VersionControl — the commands that write the history, and those that read it

`init`, `snapshot`, `merge` and `fork` of `aivcs` store commits, `restore` and `log` read them.  Each command
is a program whose calls are single operations on the handle and readings of the clock, and any number of
commands run at once on one store.  The handle is one without a data-mesh, whose operations do not fail on
their own.

* `Evolves` — how the world may change: the store grows, and stays sound if it was;
* `correct_program` — a command that succeeds has done what its output says, whatever others do meanwhile.
-/

namespace Aivcs
namespace Cli
namespace VersionControl

open Aivcs.Lib Aivcs.Lib.Digraph
open Aivcs.Domain (Number Value numberText)
open Aivcs.State
open Aivcs.SemanticMerge (Env MemoryConflict VectorStoreDelta MergeResult)
open Relation

/-! ## Operations -/

/-- One operation on the handle, or a reading of the clock. -/
inductive Op where
  | now
  | saveCommit (record : CommitRecord)
  | getCommit (commitHash : String)
  | saveSnapshot (now : Timestamp) (commitId : CommitId) (state : Value)
  | loadSnapshot (commitId : String)
  | saveCommitGraphEdge (edge : GraphEdge)
  | getParents (childId : String)
  | saveMemory (record : MemoryRecord)
  | getMemories (commitId : String)

abbrev Op.Ans : Op → Type
  | now => Timestamp
  | saveCommit _ => Except StateError CommitRecord
  | getCommit _ => Option CommitRecord
  | saveSnapshot _ _ _ => Except StateError Unit
  | loadSnapshot _ => Option SnapshotRecord
  | saveCommitGraphEdge _ => Unit
  | getParents _ => List String
  | saveMemory _ => MemoryRecord
  | getMemories _ => List MemoryRecord

/-- The store, how often the clock was read, and the walks of the map of memories, the last one first: for
which commit, and what was found. -/
structure World where
  store : MemoryStore
  readings : Nat
  walks : List (String × List MemoryRecord)

def World.empty : World :=
  ⟨.empty, 0, []⟩

def exec (env : Env) : (op : Op) → World → op.Ans × World
  | .now, w => (env.now w.readings, { w with readings := w.readings + 1 })
  | .saveCommit record, w =>
      ((w.store.saveCommit record).1, { w with store := (w.store.saveCommit record).2 })
  | .getCommit commitHash, w => (w.store.getCommit commitHash, w)
  | .saveSnapshot now commitId state, w =>
      ((w.store.saveSnapshot env.fmt now commitId state).1,
        { w with store := (w.store.saveSnapshot env.fmt now commitId state).2 })
  | .loadSnapshot commitId, w => (w.store.snapshots.lookup commitId, w)
  | .saveCommitGraphEdge edge, w =>
      ((), { w with
        store := w.store.saveCommitGraphEdgeTyped edge.createdAt edge.childId edge.parentId edge.edgeType })
  | .getParents childId, w => (w.store.getParents childId, w)
  | .saveMemory record, w => (record.stored, { w with store := w.store.saveMemory record })
  | .getMemories commitId, w =>
      let memories := w.store.getMemories (env.order w.walks.length) commitId
      (memories, { w with walks := (commitId, memories) :: w.walks })

abbrev Program (α : Type) : Type :=
  Proc Op Op.Ans α

def call (op : Op) : Program op.Ans :=
  Proc.perform op

inductive CommandError where
  | state (error : StateError)
  /-- `StateError::CommitNotFound` -/
  | commitNotFound (commitId : String)
  | context (text : String) (source : CommandError)
  /-- An error of the file system, of the parser, of the content store or of the command itself. -/
  | other (text : String)
  /-- Not an error but a panic: an index inside a character. -/
  | panicked

/-! ## Operations on the handle -/

def saveSnapshot (commitId : CommitId) (state : Value) : Program (Except CommandError Unit) := do
  let now ← call .now
  let saved ← call (.saveSnapshot now commitId state)
  pure (saved.mapError .state)

/-- `CommitRecord::new`, which reads the clock. -/
def newCommit (commitId : CommitId) (parentIds : List String) (message author : String) :
    Program CommitRecord := do
  let now ← call .now
  pure (CommitRecord.new now commitId parentIds message author)

def saveCommit (record : CommitRecord) : Program (Except CommandError CommitRecord) := do
  let saved ← call (.saveCommit record)
  pure (saved.mapError .state)

def saveCommitGraphEdgeTyped (childId parentId : String) (edgeType : EdgeType) : Program Unit := do
  let now ← call .now
  call (.saveCommitGraphEdge ⟨childId, parentId, edgeType, now⟩)

def saveEdges (childId : String) (edgeType : EdgeType) : List String → Program Unit
  | [] => pure ()
  | parentId :: parentIds => do
      saveCommitGraphEdgeTyped childId parentId edgeType
      saveEdges childId edgeType parentIds

def loadSnapshot (commitId : String) : Program (Except CommandError SnapshotRecord) := do
  let snapshot ← call (.loadSnapshot commitId)
  pure (snapshot.elim (.error (.commitNotFound commitId)) .ok)

/-- The record of a commit and the edges to its parents. -/
def storeRecord (commitId : CommitId) (parentIds : List String) (edgeType : EdgeType)
    (message author : String) : Program (Except CommandError Unit) :=
  (newCommit commitId parentIds message author).bind fun commit =>
  (saveCommit commit).andThen fun _ =>
  (saveEdges commitId.hash edgeType parentIds).bind fun _ =>
  pure (.ok ())

/-- How all commands store a commit: its snapshot, its record, and the edges to its parents. -/
def storeCommit (commitId : CommitId) (state : Value) (parentIds : List String) (edgeType : EdgeType)
    (message author : String) : Program (Except CommandError Unit) :=
  (saveSnapshot commitId state).andThen fun _ =>
  storeRecord commitId parentIds edgeType message author

/-! ## Init and snapshot -/

variable (env : Env)

theorem uniqueKeys_initialState :
    (Doc.obj [("initialized", .bool true), ("version", .str "0.5.2")] : Doc Number).UniqueKeys :=
  ⟨by simp, trivial, trivial, trivial⟩

def initialState : Value where
  doc := .obj [("initialized", .bool true), ("version", .str "0.5.2")]
  unique := uniqueKeys_initialState

def initialId : CommitId :=
  CommitId.fromState env.sha256Hex (initialState.doc.render (numberText env.fmt))

/-- `cmd_init`; it prints the id. -/
def cmdInit : Program (Except CommandError CommitId) :=
  (storeCommit (initialId env) initialState [] .normal "Initial commit" "system").andThen fun _ =>
  pure (.ok (initialId env))

/-- What `cmd_snapshot` is given, and what it finds outside the store. -/
structure SnapshotInput where
  /-- The contents of the state file. -/
  stateContent : Except String String
  parseJson : String → Except String Value
  currentDir : Except String Unit
  logicHash : Option String
  envHash : Option String
  /-- Opening the content store and storing the contents there. -/
  putCas : Bytes → Except String Unit
  message : String
  author : String
  parent : Option String

/-- The part of `cmd_snapshot` before the store is touched: the state and its commit id. -/
def SnapshotInput.prepare (input : SnapshotInput) : Except CommandError (Value × CommitId) := do
  let content ← input.stateContent.mapError fun e =>
    .context "Failed to read state file" (.other e)
  let state ← (input.parseJson content).mapError fun e =>
    .context "Failed to parse state as JSON" (.other e)
  input.currentDir.mapError fun e => .context "Failed to get current directory" (.other e)
  (input.putCas (utf8 content)).mapError .other
  pure (state, CommitId.new env.sha256Hex input.logicHash (env.sha256Hex (utf8 content)) input.envHash)

def cmdSnapshot (input : SnapshotInput) : Program (Except CommandError CommitId) :=
  match input.prepare env with
  | .error e => pure (.error e)
  | .ok (state, commitId) =>
      (storeCommit commitId state input.parent.toList .normal input.message input.author).andThen fun _ =>
      pure (.ok commitId)

/-! ## Fork -/

structure ForkResult where
  parentCommit : String
  forkLabels : List String
  commitIds : List CommitId

def branchName (branchPrefix : String) (i : Nat) : String :=
  branchPrefix ++ "-" ++ toString i

def forkId (parentId branchName : String) : CommitId :=
  CommitId.fromState env.sha256Hex (utf8 ("fork:" ++ parentId ++ ":" ++ branchName))

/-- The task that makes one fork. -/
def forkTask (parentId : String) (state : Value) (branchName : String) :
    Program (Except CommandError (String × CommitId)) :=
  (storeCommit (forkId env parentId branchName) state [parentId] .normal ("Fork branch " ++ branchName)
    "parallel-fork").andThen fun _ =>
  pure (.ok (branchName, forkId env parentId branchName))

/-- The results of the tasks in order, or the first error among them. -/
def joinAll {α : Type} : List (Except CommandError α) → Except CommandError (List α)
  | [] => .ok []
  | .error e :: _ => .error e
  | .ok a :: results => (joinAll results).map fun as => a :: as

/-- `fork_agent_parallel`.  Every call comes from the task that the schedule names. -/
def forkAgentParallel (schedule : List Nat) (parentCommit : String) (count : UInt8)
    (branchPrefix : String) : Program (Except CommandError ForkResult) :=
  -- the first eight bytes are logged
  match slice? parentCommit 0 8 with
  | none => pure (.error .panicked)
  | some _ =>
      (loadSnapshot parentCommit).andThen fun parentSnapshot =>
      (Proc.par schedule ((List.range count.toNat).map fun i =>
        forkTask env parentCommit parentSnapshot.state (branchName branchPrefix i))).bind fun results =>
      pure ((joinAll results).map fun forks =>
        { parentCommit := parentCommit
          forkLabels := forks.map Prod.fst
          commitIds := forks.map Prod.snd })

/-! ## Merge -/

def diffMemoryVectors (commitA commitB : String) : Program VectorStoreDelta := do
  let memoriesA ← call (.getMemories commitA)
  let memoriesB ← call (.getMemories commitB)
  pure (SemanticMerge.diffMemories memoriesA memoriesB)

/-- The memories made of the conflicts, each with a reading of the clock. -/
def resolveConflicts (commitA commitB newCommitId : String) :
    List MemoryConflict → Program (List MemoryRecord)
  | [] => pure []
  | conflict :: conflicts => do
      let now ← call .now
      let memories ← resolveConflicts commitA commitB newCommitId conflicts
      pure (SemanticMerge.resolvedMemory env now commitA commitB newCommitId conflict :: memories)

def synthesizeMemory (commitA commitB newCommitId : String) : Program (List MemoryRecord) := do
  let delta ← diffMemoryVectors commitA commitB
  let resolved ← resolveConflicts env commitA commitB newCommitId delta.conflicts
  pure (delta.onlyInA.map (SemanticMerge.taken newCommitId) ++
    delta.onlyInB.map (SemanticMerge.taken newCommitId) ++
    delta.identical.map (SemanticMerge.taken newCommitId) ++ resolved)

def saveMemories : List MemoryRecord → Program Unit
  | [] => pure ()
  | memory :: memories => do
      let _ ← call (.saveMemory memory)
      saveMemories memories

/-- The result of a merge; the difference is only for the summary. -/
def mergeSummary (commitA commitB : String) (delta : VectorStoreDelta) : MergeResult where
  mergeCommitId := SemanticMerge.mergeId env commitA commitB
  autoResolved := delta.conflicts.length
  manualConflicts := []
  summary := "Merged " ++ toString delta.onlyInA.length ++ " memories from A, " ++
    toString delta.onlyInB.length ++ " from B, resolved " ++
    toString delta.conflicts.length ++ " conflicts"

def summarizeMerge (commitA commitB : String) : Program (Except CommandError MergeResult) := do
  let delta ← diffMemoryVectors commitA commitB
  pure (.ok (mergeSummary env commitA commitB delta))

def semanticMerge (commitA commitB message author : String) :
    Program (Except CommandError MergeResult) :=
  let mergeCommitId := SemanticMerge.mergeId env commitA commitB
  (synthesizeMemory env commitA commitB mergeCommitId.hash).bind fun mergedMemories =>
  -- the memories are saved before anything can be refused
  (saveMemories mergedMemories).bind fun _ =>
  (storeCommit mergeCommitId (SemanticMerge.mergeState commitA commitB mergedMemories.length)
    [commitA, commitB] .merge message author).andThen fun _ =>
  summarizeMerge env commitA commitB

/-- `cmd_merge`; the directory is read when the merge is stored. -/
def cmdMerge (source target : String) (message : Option String) (currentDir : Except String Unit) :
    Program (Except CommandError MergeResult) :=
  let mergeMessage :=
    message.getD ("Merge commit '" ++ source ++ "' into '" ++ target ++ "'")
  (semanticMerge env source target mergeMessage "agent-git").andThen fun result =>
  pure ((currentDir.mapError fun e => .context "Failed to get current directory" (.other e)).map
    fun _ => result)

/-! ## Restore and log -/

/-- `cmd_restore`; the state is printed or written to a file. -/
def cmdRestore (reference : String) : Program (Except CommandError Value) := do
  let snapshot ← loadSnapshot reference
  pure ((snapshot.mapError (.context ("Commit not found: " ++ reference))).map SnapshotRecord.state)

/-- The queue up to the next commit; a hash without a commit is dropped. -/
def nextCommit
    (found : List CommitRecord → Finset String → List String → Program (List CommitRecord))
    (history : List CommitRecord) (visited : Finset String) : List String → Program (List CommitRecord)
  | [] => pure history
  | commitHash :: queue => do
      match ← call (.getCommit commitHash) with
      | none => nextCommit found history visited queue
      | some commit =>
          let edges ← call (.getParents commitHash)
          let parents := if edges = [] then commit.parentIds.head?.toList else edges
          found (history ++ [commit]) (discover visited parents).1 (queue ++ (discover visited parents).2)

/-- The loop of `get_commit_history`, with room for so many more commits. -/
def collectHistory : Nat → List CommitRecord → Finset String → List String → Program (List CommitRecord)
  | 0, history, _, _ => pure history
  | room + 1, history, visited, queue => nextCommit (collectHistory room) history visited queue

def getCommitHistory (startCommit : String) (limit : Nat) : Program (List CommitRecord) :=
  collectHistory limit [] {startCommit} [startCommit]

/-- `cmd_log`; it prints the commits. -/
def cmdLog (reference : String) (limit : Nat) : Program (Except CommandError (List CommitRecord)) :=
  if reference = "" then pure (.error (.other "commit ID required: aivcs log <commit_id>"))
  else (getCommitHistory reference limit).bind fun history => pure (.ok history)

/-! ## Commands -/

inductive Command where
  | init
  | snapshot (input : SnapshotInput)
  | restore (reference : String)
  | log (reference : String) (limit : Nat)
  | merge (source target : String) (message : Option String) (currentDir : Except String Unit)
  | fork (schedule : List Nat) (parent : String) (count : UInt8) (branchPrefix : String)

/-- What a command prints. -/
inductive Output where
  | initialized (commitId : CommitId)
  | snapshot (commitId : CommitId)
  | restored (state : Value)
  | history (commits : List CommitRecord)
  | merged (result : MergeResult)
  | forked (result : ForkResult)

def Command.program : Command → Program (Except CommandError Output)
  | .init => (cmdInit env).andThen fun commitId => pure (.ok (.initialized commitId))
  | .snapshot input => (cmdSnapshot env input).andThen fun commitId => pure (.ok (.snapshot commitId))
  | .restore reference => (cmdRestore reference).andThen fun state => pure (.ok (.restored state))
  | .log reference limit => (cmdLog reference limit).andThen fun commits => pure (.ok (.history commits))
  | .merge source target message currentDir =>
      (cmdMerge env source target message currentDir).andThen fun result => pure (.ok (.merged result))
  | .fork schedule parent count branchPrefix =>
      (forkAgentParallel env schedule parent count branchPrefix).andThen fun result =>
      pure (.ok (.forked result))

/-! ## What is stored -/

/-- The commit is stored, and its record names this parent. -/
def Names (store : MemoryStore) (child parent : String) : Prop :=
  ∃ commit, store.getCommit child = some commit ∧ parent ∈ commit.parentIds

def HasEdge (store : MemoryStore) (child parent : String) (edgeType : EdgeType) : Prop :=
  ∃ edge ∈ store.edges, edge.childId = child ∧ edge.parentId = parent ∧ edge.edgeType = edgeType

/-- A commit is under its own id and has its snapshot, and an edge is one that the record of its child names. -/
structure Sound (store : MemoryStore) : Prop where
  commit : ∀ h commit, store.getCommit h = some commit → commit.commitId.hash = h ∧ h ∈ store.snapshots
  edge : ∀ edge ∈ store.edges, Names store edge.childId edge.parentId

/-- What is stored stays as it is. -/
structure Grows (store store' : MemoryStore) : Prop where
  commit : ∀ h commit, store.getCommit h = some commit → store'.getCommit h = some commit
  snapshot : ∀ h snapshot, store.snapshots.lookup h = some snapshot →
    store'.snapshots.lookup h = some snapshot
  edges : store.edges <+: store'.edges

/-- How the world may change. -/
structure Evolves (w w' : World) : Prop where
  grows : Grows w.store w'.store
  sound : Sound w.store → Sound w'.store
  walks : w.walks <:+ w'.walks

/-- The commit was stored with this state. -/
structure Stored (store : MemoryStore) (commitId : CommitId) (state : Value) (parentIds : List String)
    (edgeType : EdgeType) (message author : String) : Prop where
  commit : ∃ commit, store.getCommit commitId.hash = some commit ∧ commit.commitId = commitId ∧
    commit.parentIds = parentIds ∧ commit.message = message ∧ commit.author = author
  snapshot : ∃ snapshot, store.snapshots.lookup commitId.hash = some snapshot ∧ snapshot.state = state
  edges : ∀ parent ∈ parentIds, HasEdge store commitId.hash parent edgeType

section Grows

variable {store store' store'' : MemoryStore} {w w' w'' : World} {child parent : String}
  {edgeType : EdgeType}

theorem sound_empty : Sound .empty where
  commit h commit hcommit := by
    simp [MemoryStore.getCommit, MemoryStore.empty] at hcommit
  edge edge hedge := absurd hedge List.not_mem_nil

theorem Grows.refl (store : MemoryStore) : Grows store store :=
  ⟨fun _ _ h => h, fun _ _ h => h, List.prefix_rfl⟩

theorem Grows.trans (h : Grows store store') (h' : Grows store' store'') : Grows store store'' :=
  ⟨fun k c hc => h'.commit k c (h.commit k c hc), fun k s hs => h'.snapshot k s (h.snapshot k s hs),
    h.edges.trans h'.edges⟩

theorem Evolves.refl (w : World) : Evolves w w :=
  ⟨.refl _, id, List.suffix_rfl⟩

theorem Evolves.trans (h : Evolves w w') (h' : Evolves w' w'') : Evolves w w'' :=
  ⟨h.grows.trans h'.grows, h'.sound ∘ h.sound, h.walks.trans h'.walks⟩

theorem Names.mono (h : Names store child parent) (hgrows : Grows store store') :
    Names store' child parent := by
  obtain ⟨commit, hcommit, hparent⟩ := h
  exact ⟨commit, hgrows.commit _ _ hcommit, hparent⟩

theorem HasEdge.mono (h : HasEdge store child parent edgeType) (hgrows : Grows store store') :
    HasEdge store' child parent edgeType := by
  obtain ⟨edge, hedge, hrest⟩ := h
  exact ⟨edge, hgrows.edges.subset hedge, hrest⟩

theorem Grows.mem_snapshots (h : Grows store store') {id : String} (hid : id ∈ store.snapshots) :
    id ∈ store'.snapshots := by
  obtain ⟨snapshot, hs⟩ := Finmap.mem_iff.1 hid
  exact Finmap.mem_of_lookup_eq_some (h.snapshot _ _ hs)

theorem Grows.mem_commits (h : Grows store store') {id : String} (hid : id ∈ store.commits) :
    id ∈ store'.commits := by
  obtain ⟨commit, hc⟩ := Finmap.mem_iff.1 hid
  exact Finmap.mem_of_lookup_eq_some (h.commit _ _ hc)

theorem Stored.mono {commitId : CommitId} {state : Value} {parentIds : List String}
    {message author : String} (h : Stored store commitId state parentIds edgeType message author)
    (hgrows : Grows store store') : Stored store' commitId state parentIds edgeType message author := by
  obtain ⟨commit, hcommit, hrecord⟩ := h.commit
  obtain ⟨snapshot, hsnapshot, hstate⟩ := h.snapshot
  exact ⟨⟨commit, hgrows.commit _ _ hcommit, hrecord⟩,
    ⟨snapshot, hgrows.snapshot _ _ hsnapshot, hstate⟩, fun p hp => (h.edges p hp).mono hgrows⟩

end Grows

/-! ## What one operation does -/

section Operations

variable {w : World}

/-- The record of a commit that is saved. -/
def storedCommit (record : CommitRecord) : CommitRecord :=
  { record with id := some (record.id.getD ("commit:" ++ record.commitId.hash)) }

/-- The record of a snapshot that is saved. -/
def storedSnapshot (fmt : F64 → Bytes) (now : Timestamp) (commitId : CommitId) (state : Value) :
    SnapshotRecord :=
  { SnapshotRecord.new fmt now commitId.hash state with id := some ("snapshot:" ++ commitId.hash) }

theorem saveCommit_of_mem {store : MemoryStore} {record : CommitRecord}
    (h : record.commitId.hash ∈ store.commits) : store.saveCommit record =
      (.error (.transaction ("Commit already exists: " ++ record.commitId.hash)), store) :=
  if_pos h

theorem saveCommit_of_notMem {store : MemoryStore} {record : CommitRecord}
    (h : record.commitId.hash ∉ store.commits) : store.saveCommit record =
      (.ok (storedCommit record), { store with
        commits := store.commits.insert record.commitId.hash (storedCommit record) }) :=
  if_neg h

theorem saveSnapshot_of_mem {store : MemoryStore} {fmt : F64 → Bytes} {now : Timestamp}
    {commitId : CommitId} {state : Value} (h : commitId.hash ∈ store.snapshots) :
    store.saveSnapshot fmt now commitId state =
      (.error (.transaction ("Snapshot already exists for commit " ++ commitId.hash)), store) :=
  if_pos h

theorem saveSnapshot_of_notMem {store : MemoryStore} {fmt : F64 → Bytes} {now : Timestamp}
    {commitId : CommitId} {state : Value} (h : commitId.hash ∉ store.snapshots) :
    store.saveSnapshot fmt now commitId state =
      (.ok (), { store with
        snapshots := store.snapshots.insert commitId.hash (storedSnapshot fmt now commitId state) }) :=
  if_neg h

theorem exec_saveCommit (record : CommitRecord) (w : World) :
    (record.commitId.hash ∈ w.store.commits ∧ exec env (.saveCommit record) w =
      (.error (.transaction ("Commit already exists: " ++ record.commitId.hash)), w)) ∨
    (record.commitId.hash ∉ w.store.commits ∧ exec env (.saveCommit record) w =
      (.ok (storedCommit record), { w with store := { w.store with
        commits := w.store.commits.insert record.commitId.hash (storedCommit record) } })) := by
  have heq : exec env (.saveCommit record) w =
      ((w.store.saveCommit record).1, { w with store := (w.store.saveCommit record).2 }) := rfl
  by_cases h : record.commitId.hash ∈ w.store.commits
  · exact Or.inl ⟨h, by rw [heq, saveCommit_of_mem h]⟩
  · exact Or.inr ⟨h, by rw [heq, saveCommit_of_notMem h]⟩

theorem exec_saveSnapshot (now : Timestamp) (commitId : CommitId) (state : Value) (w : World) :
    (commitId.hash ∈ w.store.snapshots ∧ exec env (.saveSnapshot now commitId state) w =
      (.error (.transaction ("Snapshot already exists for commit " ++ commitId.hash)), w)) ∨
    (commitId.hash ∉ w.store.snapshots ∧ exec env (.saveSnapshot now commitId state) w =
      (.ok (), { w with store := { w.store with
        snapshots := w.store.snapshots.insert commitId.hash
          (storedSnapshot env.fmt now commitId state) } })) := by
  have heq : exec env (.saveSnapshot now commitId state) w =
      ((w.store.saveSnapshot env.fmt now commitId state).1,
        { w with store := (w.store.saveSnapshot env.fmt now commitId state).2 }) := rfl
  by_cases h : commitId.hash ∈ w.store.snapshots
  · exact Or.inl ⟨h, by rw [heq, saveSnapshot_of_mem h]⟩
  · exact Or.inr ⟨h, by rw [heq, saveSnapshot_of_notMem h]⟩

/-- No operation changes or removes what is stored. -/
theorem grows_exec (op : Op) (w : World) : Grows w.store (exec env op w).2.store := by
  cases op with
  | saveCommit record =>
      rcases exec_saveCommit env record w with ⟨-, heq⟩ | ⟨hnew, heq⟩
      · rw [heq]
        exact .refl _
      · rw [heq]
        refine ⟨fun h commit hcommit => ?_, fun _ _ hs => hs, List.prefix_rfl⟩
        have hne : h ≠ record.commitId.hash := by
          rintro rfl
          exact hnew (Finmap.mem_of_lookup_eq_some hcommit)
        exact (Finmap.lookup_insert_of_ne _ hne).trans hcommit
  | saveSnapshot now commitId state =>
      rcases exec_saveSnapshot env now commitId state w with ⟨-, heq⟩ | ⟨hnew, heq⟩
      · rw [heq]
        exact .refl _
      · rw [heq]
        refine ⟨fun _ _ hc => hc, fun h snapshot hs => ?_, List.prefix_rfl⟩
        have hne : h ≠ commitId.hash := by
          rintro rfl
          exact hnew (Finmap.mem_of_lookup_eq_some hs)
        exact (Finmap.lookup_insert_of_ne _ hne).trans hs
  | saveCommitGraphEdge edge =>
      exact ⟨fun _ _ hc => hc, fun _ _ hs => hs, List.prefix_append _ _⟩
  | saveMemory record =>
      exact ⟨fun _ _ hc => hc, fun _ _ hs => hs, List.prefix_rfl⟩
  | now => exact .refl _
  | getCommit _ => exact .refl _
  | loadSnapshot _ => exact .refl _
  | getParents _ => exact .refl _
  | getMemories _ => exact .refl _

theorem walks_exec (op : Op) (w : World) : w.walks <:+ (exec env op w).2.walks := by
  cases op with
  | getMemories commitId => exact List.suffix_cons _ _
  | _ => exact List.suffix_rfl

variable {env}

/-- A commit that is saved when its snapshot is there keeps the store sound. -/
theorem evolves_saveCommit {record : CommitRecord} (h : record.commitId.hash ∈ w.store.snapshots) :
    Evolves w (exec env (.saveCommit record) w).2 := by
  refine ⟨grows_exec _ _ w, fun hw => ?_, walks_exec _ _ w⟩
  rcases exec_saveCommit env record w with ⟨-, heq⟩ | ⟨hnew, heq⟩
  · rw [heq]
    exact hw
  · have hgrows := grows_exec env (.saveCommit record) w
    rw [heq] at hgrows ⊢
    refine ⟨fun k commit hcommit => ?_, fun edge hedge => (hw.edge edge hedge).mono hgrows⟩
    by_cases hk : k = record.commitId.hash
    · subst hk
      obtain rfl : storedCommit record = commit :=
        Option.some.inj ((Finmap.lookup_insert _).symm.trans hcommit)
      exact ⟨rfl, h⟩
    · exact hw.commit k commit ((Finmap.lookup_insert_of_ne _ hk).symm.trans hcommit)

theorem evolves_saveSnapshot (now : Timestamp) (commitId : CommitId) (state : Value) (w : World) :
    Evolves w (exec env (.saveSnapshot now commitId state) w).2 := by
  have hgrows := grows_exec env (.saveSnapshot now commitId state) w
  refine ⟨hgrows, fun hw => ?_, walks_exec _ _ w⟩
  rcases exec_saveSnapshot env now commitId state w with ⟨-, heq⟩ | ⟨hnew, heq⟩
  · rw [heq]
    exact hw
  · rw [heq] at hgrows ⊢
    refine ⟨fun k commit hcommit => ?_, hw.edge⟩
    obtain ⟨hhash, hsnapshot⟩ := hw.commit k commit hcommit
    exact ⟨hhash, hgrows.mem_snapshots hsnapshot⟩

/-- An edge that the record of its child names keeps the store sound. -/
theorem evolves_saveCommitGraphEdge {edge : GraphEdge} (h : Names w.store edge.childId edge.parentId) :
    Evolves w (exec env (.saveCommitGraphEdge edge) w).2 := by
  have hgrows := grows_exec env (.saveCommitGraphEdge edge) w
  refine ⟨hgrows, fun hw => ⟨hw.commit, fun edge' hedge => ?_⟩, walks_exec _ _ w⟩
  rcases List.mem_append.1 hedge with hedge | hedge
  · exact (hw.edge edge' hedge).mono hgrows
  · rw [List.mem_singleton.1 hedge]
    exact h.mono hgrows

theorem evolves_now (w : World) : Evolves w (exec env .now w).2 :=
  ⟨.refl _, id, List.suffix_rfl⟩

/-- Operations that change neither a commit nor a snapshot nor an edge. -/
def Op.Spares : Op → Prop
  | .saveCommit _ => False
  | .saveSnapshot _ _ _ => False
  | .saveCommitGraphEdge _ => False
  | _ => True

theorem evolves_of_spares {op : Op} (h : op.Spares) (w : World) : Evolves w (exec env op w).2 := by
  cases op with
  | saveCommit _ => exact h.elim
  | saveSnapshot _ _ _ => exact h.elim
  | saveCommitGraphEdge _ => exact h.elim
  | saveMemory record =>
      have hgrows := grows_exec env (.saveMemory record) w
      exact ⟨hgrows, fun hw => ⟨hw.commit, fun edge hedge => (hw.edge edge hedge).mono hgrows⟩,
        walks_exec _ _ w⟩
  | now => exact evolves_now w
  | getCommit _ => exact .refl _
  | loadSnapshot _ => exact .refl _
  | getParents _ => exact .refl _
  | getMemories _ => exact ⟨.refl _, id, walks_exec _ _ w⟩

end Operations

/-! ## What a command does while others run -/

/-- From this world on the program keeps the store sound and leaves what is stored alone, whatever other
commands do in between, and its result satisfies `Q`. -/
abbrev Correct {α : Type} (env : Env) (Q : α → World → Prop) (p : Program α) (w : World) : Prop :=
  Proc.Wp (exec env) (fun _ _ => True) Evolves Q p w

section Commands

variable {env} {α β : Type} {w : World}

theorem correct_call {op : Op} {next : op.Ans → Program α} {Q : α → World → Prop}
    (hop : Evolves w (exec env op w).2)
    (hnext : ∀ w', Evolves (exec env op w).2 w' → Correct env Q (next (exec env op w).1) w') :
    Correct env Q (.call op next) w :=
  fun _ => ⟨hop, hnext⟩

/-- Sequencing; the world has evolved when the first program ends. -/
theorem correct_bind {P : α → World → Prop} {Q : β → World → Prop} {p : Program α}
    {f : α → Program β} (hp : Correct env P p w)
    (hf : ∀ a w', Evolves w w' → P a w' → Correct env Q (f a) w') : Correct env Q (p.bind f) w := by
  refine Proc.Wp.bind (Proc.Wp.mono ?_ (Proc.Wp.evolves Evolves.refl Evolves.trans hp))
  exact fun a w' h => hf a w' h.1 h.2

theorem correct_andThen {ε : Type} {P : Except ε α → World → Prop} {Q : Except ε β → World → Prop}
    {p : Program (Except ε α)} {f : α → Program (Except ε β)} (hp : Correct env P p w)
    (herror : ∀ e w', Q (.error e) w')
    (hf : ∀ a w', Evolves w w' → P (.ok a) w' → Correct env Q (f a) w') :
    Correct env Q (p.andThen f) w := by
  refine correct_bind hp fun r w' hw' hr => ?_
  cases r with
  | error e =>
      exact herror e w'
  | ok a =>
      exact hf a w' hw' hr

/-- A program whose operations spare commits, snapshots and edges. -/
theorem correct_of_spares {p : Program α} (hp : p.Calls Op.Spares) (w : World) :
    Correct env (fun _ _ => True) p w :=
  hp.wp (fun _ w hop _ => evolves_of_spares hop w) w

/-- What a successful result says; nothing is said about a failure. -/
def OnSuccess {ε : Type} (Q : α → World → Prop) (r : Except ε α) (w : World) : Prop :=
  ∀ a, r = .ok a → Q a w

theorem onSuccess_error {ε : Type} (Q : α → World → Prop) (e : ε) (w : World) :
    OnSuccess Q (.error e) w := by
  intro a ha
  cases ha

theorem onSuccess_ok {ε : Type} {Q : α → World → Prop} {a : α} (h : Q a w) :
    OnSuccess Q (.ok a : Except ε α) w := by
  intro b hb
  cases hb
  exact h

theorem correct_saveSnapshot (commitId : CommitId) (state : Value) (w : World) :
    Correct env (OnSuccess fun _ w' => ∃ snapshot,
      w'.store.snapshots.lookup commitId.hash = some snapshot ∧ snapshot.state = state)
      (saveSnapshot commitId state) w := by
  refine correct_call (evolves_now _) fun w₁ _ => ?_
  refine correct_call (evolves_saveSnapshot _ _ _ _) fun w₂ hw₂ => ?_
  rcases exec_saveSnapshot env (env.now w.readings) commitId state w₁ with
    ⟨-, heq⟩ | ⟨-, heq⟩
  · show OnSuccess _ (Except.mapError _ (exec env (.saveSnapshot _ commitId state) w₁).1) w₂
    rw [show (exec env Op.now w).1 = env.now w.readings from rfl, heq]
    exact onSuccess_error _ _ _
  · rw [show (exec env Op.now w).1 = env.now w.readings from rfl, heq] at hw₂
    intro _ _
    exact ⟨_, hw₂.1.snapshot _ _ (Finmap.lookup_insert _), rfl⟩

theorem correct_saveEdges {childId : String} {edgeType : EdgeType} {parentIds : List String}
    (h : ∀ parent ∈ parentIds, Names w.store childId parent) :
    Correct env (fun _ w' => ∀ parent ∈ parentIds, HasEdge w'.store childId parent edgeType)
      (saveEdges childId edgeType parentIds) w := by
  induction parentIds generalizing w with
  | nil =>
      exact fun _ hp => absurd hp List.not_mem_nil
  | cons parent parentIds ih =>
      refine correct_call (evolves_now _) fun w₁ hw₁ => ?_
      have hname := (h parent List.mem_cons_self).mono hw₁.1
      refine correct_call (evolves_saveCommitGraphEdge hname) fun w₂ hw₂ => ?_
      have hedge : HasEdge (exec env (.saveCommitGraphEdge
          ⟨childId, parent, edgeType, (exec env .now w).1⟩) w₁).2.store childId parent edgeType :=
        ⟨_, List.mem_append_right _ (List.mem_singleton_self _), rfl, rfl, rfl⟩
      have hstill : ∀ p ∈ parentIds, Names w₂.store childId p := fun p hp =>
        ((h p (List.mem_cons_of_mem _ hp)).mono hw₁.1).mono ((grows_exec _ _ _).trans hw₂.1)
      refine Proc.Wp.mono ?_ (Proc.Wp.evolves Evolves.refl Evolves.trans (ih hstill))
      rintro _ w₃ ⟨hw₃, hrest⟩ p hp
      rcases List.mem_cons.1 hp with rfl | hp
      · exact (hedge.mono hw₂.1).mono hw₃.1
      · exact hrest p hp

/-- A commit that is reported as stored is stored whole. -/
theorem correct_storeCommit (commitId : CommitId) (state : Value) (parentIds : List String)
    (edgeType : EdgeType) (message author : String) (w : World) :
    Correct env (OnSuccess fun _ w' =>
      Stored w'.store commitId state parentIds edgeType message author)
      (storeCommit commitId state parentIds edgeType message author) w := by
  refine correct_andThen (correct_saveSnapshot commitId state w) (onSuccess_error _) ?_
  intro _ w₁ _ hsaved
  obtain ⟨snapshot, hsnapshot, hstate⟩ := hsaved () rfl
  refine correct_call (evolves_now _) fun w₂ hw₂ => ?_
  have hsnapshot₂ := hw₂.1.snapshot _ _ hsnapshot
  let record := CommitRecord.new (env.now w₁.readings) commitId parentIds message author
  have hthere : record.commitId.hash ∈ w₂.store.snapshots := Finmap.mem_of_lookup_eq_some hsnapshot₂
  show Correct env _ ((saveCommit record).andThen _) w₂
  refine correct_call (evolves_saveCommit hthere) fun w₃ hw₃ => ?_
  rcases exec_saveCommit env record w₂ with ⟨-, heq⟩ | ⟨-, heq⟩
  · rw [heq]
    exact onSuccess_error _ _ _
  · have hgrows := grows_exec env (.saveCommit record) w₂
    rw [heq] at hw₃ hgrows ⊢
    have hcommit : w₃.store.getCommit commitId.hash = some (storedCommit record) :=
      hw₃.1.commit _ _ (Finmap.lookup_insert _)
    show Correct env _ ((saveEdges commitId.hash edgeType parentIds).bind fun _ =>
      .ret (Except.ok ())) w₃
    have hnames : ∀ parent ∈ parentIds, Names w₃.store commitId.hash parent := fun p hp =>
      ⟨storedCommit record, hcommit, hp⟩
    refine correct_bind (correct_saveEdges hnames) fun _ w₄ hw₄ hedges => ?_
    exact onSuccess_ok
      { commit := ⟨_, hw₄.grows.commit _ _ hcommit, rfl, rfl, rfl, rfl⟩
        snapshot := ⟨snapshot, ((hgrows.trans hw₃.grows).trans hw₄.grows).snapshot _ _ hsnapshot₂, hstate⟩
        edges := hedges }

theorem correct_loadSnapshot (commitId : String) (w : World) :
    Correct env (OnSuccess fun snapshot w' => w'.store.snapshots.lookup commitId = some snapshot)
      (loadSnapshot commitId) w := by
  refine correct_call (.refl w) fun w₁ hw₁ => ?_
  show OnSuccess _ ((w.store.snapshots.lookup commitId).elim _ _) w₁
  cases hsnapshot : w.store.snapshots.lookup commitId with
  | none =>
      exact onSuccess_error _ _ _
  | some snapshot =>
      exact onSuccess_ok (hw₁.1.snapshot _ _ hsnapshot)

/-! ### The history that is listed -/

/-- The listed commits are stored ones that the start descends from, none of them twice. -/
def Listed (store : MemoryStore) (start : String) (limit : Nat) (history : List CommitRecord) : Prop :=
  history.length ≤ limit ∧ ∃ hashes : List String, hashes.Nodup ∧
    history.map some = hashes.map store.getCommit ∧ ∀ h ∈ hashes, ReflTransGen (Names store) start h

/-- What holds between two rounds of the walk. -/
structure WalkInv (store : MemoryStore) (start : String) (hashes : List String)
    (history : List CommitRecord) (visited : Finset String) (queue : List String) : Prop where
  records : history.map some = hashes.map store.getCommit
  nodup : (hashes ++ queue).Nodup
  mem_visited : ∀ h ∈ hashes ++ queue, h ∈ visited
  sound : ∀ h ∈ hashes ++ queue, ReflTransGen (Names store) start h

section Walk

variable {store store' : MemoryStore} {start commitHash : String} {hashes queue : List String}
  {history : List CommitRecord} {visited : Finset String}

theorem WalkInv.mono (h : WalkInv store start hashes history visited queue) (hgrows : Grows store store') :
    WalkInv store' start hashes history visited queue where
  records := by
    rw [h.records]
    refine List.map_congr_left fun k hk => ?_
    -- a listed hash has a commit, and keeps it
    have hmem : store.getCommit k ∈ history.map some := h.records ▸ List.mem_map_of_mem hk
    obtain ⟨commit, -, hcommit⟩ := List.mem_map.1 hmem
    rw [← hcommit, hgrows.commit k commit hcommit.symm]
  nodup := h.nodup
  mem_visited := h.mem_visited
  sound k hk := ReflTransGen.mono (fun _ _ hname => hname.mono hgrows) _ _ (h.sound k hk)

theorem WalkInv.skip (h : WalkInv store start hashes history visited (commitHash :: queue)) :
    WalkInv store start hashes history visited queue where
  records := h.records
  nodup := h.nodup.sublist ((List.sublist_cons_self commitHash queue).append_left hashes)
  mem_visited k hk :=
    h.mem_visited k (((List.sublist_cons_self commitHash queue).append_left hashes).subset hk)
  sound k hk := h.sound k (((List.sublist_cons_self commitHash queue).append_left hashes).subset hk)

/-- A commit of the queue is listed, and those of its parents that were not seen yet are queued. -/
theorem WalkInv.found (h : WalkInv store start hashes history visited (commitHash :: queue))
    {commit : CommitRecord} (hcommit : store.getCommit commitHash = some commit) {parents : List String}
    (hparents : ∀ p ∈ parents, p ∈ commit.parentIds) :
    WalkInv store start (hashes ++ [commitHash]) (history ++ [commit]) (discover visited parents).1
      (queue ++ (discover visited parents).2) where
  records := by
    rw [List.map_append, List.map_append, h.records, List.map_singleton, List.map_singleton, hcommit]
  nodup := by
    -- what is queued now was not visited before, and what was listed or queued before was
    have hold : ((hashes ++ [commitHash]) ++ queue).Nodup := by
      rw [List.append_assoc]
      exact h.nodup
    rw [← List.append_assoc, List.nodup_append]
    refine ⟨hold, nodup_discover visited parents, ?_⟩
    rintro k hk k' hk' rfl
    rw [List.append_assoc] at hk
    exact ((mem_discover_snd _ _ k).1 hk').1 (h.mem_visited k hk)
  mem_visited k hk := by
    rw [mem_discover_fst]
    rw [← List.append_assoc, List.append_assoc hashes, List.mem_append] at hk
    rcases hk with hk | hk
    · exact Or.inl (h.mem_visited k hk)
    · exact Or.inr ((mem_discover_snd _ _ k).1 hk).2
  sound k hk := by
    rw [← List.append_assoc, List.append_assoc hashes, List.mem_append] at hk
    rcases hk with hk | hk
    · exact h.sound k hk
    · have hreach := h.sound commitHash (List.mem_append_right _ List.mem_cons_self)
      exact hreach.tail ⟨commit, hcommit, hparents k ((mem_discover_snd _ _ k).1 hk).2⟩

/-- A finished walk. -/
theorem WalkInv.listed (h : WalkInv store start hashes history visited queue) {limit : Nat}
    (hlimit : history.length ≤ limit) : Listed store start limit history :=
  ⟨hlimit, hashes, h.nodup.sublist (List.sublist_append_left _ _), h.records,
    fun k hk => h.sound k (List.mem_append_left _ hk)⟩

end Walk

/-- The parents that are followed are named by the record. -/
theorem followed_named {store : MemoryStore} (hsound : Sound store) {commitHash : String}
    {commit : CommitRecord} (hcommit : store.getCommit commitHash = some commit) {parent : String}
    (hparent : parent ∈ if store.getParents commitHash = [] then commit.parentIds.head?.toList
      else store.getParents commitHash) : parent ∈ commit.parentIds := by
  split at hparent
  · exact List.mem_of_mem_head? (Option.mem_toList.1 hparent)
  · obtain ⟨edge, hedge, rfl⟩ := List.mem_map.1 hparent
    obtain ⟨hedge, hchild⟩ := List.mem_filter.1 hedge
    obtain ⟨commit', hcommit', hmem⟩ := hsound.edge edge hedge
    rw [of_decide_eq_true hchild, hcommit] at hcommit'
    cases hcommit'
    exact hmem

/-- The walk, from a round on; other commands may store commits and edges between its readings. -/
theorem correct_collectHistory {start : String} {limit room : Nat} {hashes queue : List String}
    {history : List CommitRecord} {visited : Finset String} (hsound : Sound w.store)
    (hinv : WalkInv w.store start hashes history visited queue) (hroom : history.length + room = limit) :
    Correct env (fun history w' => Listed w'.store start limit history)
      (collectHistory room history visited queue) w := by
  -- on the room for commits, and for each commit on the queue up to it
  induction room generalizing w hashes queue history visited with
  | zero =>
      exact hinv.listed hroom.le
  | succ room ih =>
      show Correct env _ (nextCommit (collectHistory room) history visited queue) w
      induction queue generalizing w with
      | nil =>
          exact hinv.listed (by omega)
      | cons commitHash queue ihq =>
          refine correct_call (.refl w) fun w₁ hw₁ => ?_
          have hsound₁ := hw₁.2 hsound
          have hinv₁ := hinv.mono hw₁.1
          show Correct env _ (Proc.bind (.ret (w.store.getCommit commitHash)) _) w₁
          cases hcommit : w.store.getCommit commitHash with
          | none =>
              exact ihq hsound₁ hinv₁.skip
          | some commit =>
              have hcommit₁ := hw₁.1.commit _ _ hcommit
              refine correct_call (.refl w₁) fun w₂ hw₂ => ?_
              have hfound := (hinv₁.mono hw₂.1).found (hw₂.1.commit _ _ hcommit₁)
                (fun p hp => followed_named hsound₁ hcommit₁ hp)
              refine ih (hw₂.2 hsound₁) hfound ?_
              rw [List.length_append, List.length_singleton]
              omega

/-! ### The commands -/

theorem joinAll_eq_ok {results : List (Except CommandError α)} {as : List α}
    (h : joinAll results = .ok as) : results = as.map .ok := by
  induction results generalizing as with
  | nil =>
      cases h
      rfl
  | cons r results ih =>
      cases r with
      | error e =>
          cases h
      | ok a =>
          cases hrest : joinAll results with
          | error e =>
              rw [joinAll, hrest] at h
              cases h
          | ok rest =>
              rw [joinAll, hrest] at h
              cases h
              rw [ih hrest, List.map_cons]

/-- The labels of the forks. -/
def forkLabels (count : UInt8) (branchPrefix : String) : List String :=
  (List.range count.toNat).map (branchName branchPrefix)

/-- The fork of a state under a label is stored. -/
def Forked (env : Env) (store : MemoryStore) (parent : String) (state : Value) (label : String) : Prop :=
  Stored store (forkId env parent label) state [parent] .normal ("Fork branch " ++ label) "parallel-fork"

theorem correct_forkTask (parent : String) (state : Value) (label : String) (w : World) :
    Correct env (OnSuccess fun fork w' =>
      fork = (label, forkId env parent label) ∧ Forked env w'.store parent state label)
      (forkTask env parent state label) w := by
  refine correct_andThen (correct_storeCommit _ _ _ _ _ _ w) (onSuccess_error _) ?_
  intro _ w₁ _ hstored
  exact onSuccess_ok ⟨rfl, hstored () rfl⟩

/-- What a successful fork says. -/
structure ForkDone (env : Env) (store : MemoryStore) (parent : String) (count : UInt8)
    (branchPrefix : String) (result : ForkResult) : Prop where
  parentCommit : result.parentCommit = parent
  forkLabels : result.forkLabels = forkLabels count branchPrefix
  commitIds : result.commitIds = (VersionControl.forkLabels count branchPrefix).map (forkId env parent)
  forked : ∃ snapshot, store.snapshots.lookup parent = some snapshot ∧
    ∀ label ∈ result.forkLabels, Forked env store parent snapshot.state label

theorem correct_forkAgentParallel (schedule : List Nat) (parent : String) (count : UInt8)
    (branchPrefix : String) (w : World) :
    Correct env (OnSuccess fun result w' => ForkDone env w'.store parent count branchPrefix result)
      (forkAgentParallel env schedule parent count branchPrefix) w := by
  unfold forkAgentParallel
  cases slice? parent 0 8 with
  | none =>
      exact onSuccess_error _ _ _
  | some _ =>
      refine correct_andThen (correct_loadSnapshot parent w) (onSuccess_error _) ?_
      intro snapshot w₁ _ hload
      have hsnapshot := hload snapshot rfl
      let tasks := (List.range count.toNat).map fun i =>
        forkTask env parent snapshot.state (branchName branchPrefix i)
      -- what a task has stored stays stored while the others go on
      have htasks : Correct env (fun results w' => results.length = tasks.length ∧
          ∀ i r, results[i]? = some r → OnSuccess (fun fork w' =>
            fork = (branchName branchPrefix i, forkId env parent (branchName branchPrefix i)) ∧
              Forked env w'.store parent snapshot.state (branchName branchPrefix i)) r w')
          (Proc.par schedule tasks) w₁ := by
        refine Proc.Wp.par Evolves.refl Evolves.trans ?_ ?_
        · intro i r w₂ w₃ hr hw fork hfork
          exact ⟨(hr fork hfork).1, (hr fork hfork).2.mono hw.1⟩
        · intro i p hp w₂ _
          obtain ⟨hi, hget⟩ := List.getElem?_eq_some_iff.1 hp
          rw [← hget, List.getElem_map, List.getElem_range]
          exact correct_forkTask parent snapshot.state _ w₂
      refine correct_bind htasks fun results w₂ hw₂ hresults => ?_
      obtain ⟨hlength, hdone⟩ := hresults
      intro result hresult
      obtain ⟨forks, hforks, rfl⟩ : ∃ forks, joinAll results = .ok forks ∧ result =
          { parentCommit := parent, forkLabels := forks.map Prod.fst, commitIds := forks.map Prod.snd } := by
        cases hjoin : joinAll results with
        | error e =>
            rw [hjoin] at hresult
            cases hresult
        | ok forks =>
            rw [hjoin] at hresult
            cases hresult
            exact ⟨forks, rfl, rfl⟩
      have hall := joinAll_eq_ok hforks
      have hcount : forks.length = count.toNat := by
        rw [← List.length_map (f := Except.ok (ε := CommandError)), ← hall, hlength, List.length_map,
          List.length_range]
      have hfork : ∀ i (hi : i < forks.length),
          forks[i] = (branchName branchPrefix i, forkId env parent (branchName branchPrefix i)) ∧
            Forked env w₂.store parent snapshot.state (branchName branchPrefix i) := by
        intro i hi
        refine hdone i (.ok forks[i]) ?_ _ rfl
        rw [hall, List.getElem?_map, List.getElem?_eq_getElem hi]
        rfl
      have hlabels : forks.map Prod.fst = forkLabels count branchPrefix := by
        refine List.ext_getElem (by simp [forkLabels, hcount]) fun i hi _ => ?_
        have hi' : i < forks.length := by simpa using hi
        simp [forkLabels, (hfork i hi').1]
      refine ⟨rfl, hlabels, ?_, snapshot, hw₂.1.snapshot _ _ hsnapshot, ?_⟩
      · refine List.ext_getElem (by simp [forkLabels, hcount]) fun i hi _ => ?_
        have hi' : i < forks.length := by simpa using hi
        simp [forkLabels, (hfork i hi').1]
      · intro label hlabel
        have hmem : label ∈ forks.map Prod.fst := hlabel
        rw [hlabels] at hmem
        obtain ⟨i, hi, rfl⟩ := List.mem_map.1 hmem
        rw [List.mem_range, ← hcount] at hi
        exact (hfork i hi).2

/-- The difference is that of two walks that the program makes. -/
theorem correct_diffMemoryVectors (commitA commitB : String) (w : World) :
    Correct env (fun delta w' => ∃ memoriesA memoriesB, delta = SemanticMerge.diffMemories memoriesA memoriesB ∧
      ((commitB, memoriesB) :: (commitA, memoriesA) :: w.walks).Sublist w'.walks)
      (diffMemoryVectors commitA commitB) w := by
  have hspares : ∀ commitId, Op.Spares (.getMemories commitId) := fun _ => trivial
  refine correct_call (evolves_of_spares (hspares commitA) w) fun w₁ hw₁ => ?_
  refine correct_call (evolves_of_spares (hspares commitB) w₁) fun w₂ hw₂ => ?_
  exact ⟨_, _, rfl, (hw₁.walks.sublist.cons_cons _).trans hw₂.walks.sublist⟩

theorem correct_resolveConflicts (commitA commitB newCommitId : String) (conflicts : List MemoryConflict)
    (w : World) : Correct env (fun memories _ => memories.length = conflicts.length)
      (resolveConflicts env commitA commitB newCommitId conflicts) w := by
  induction conflicts generalizing w with
  | nil =>
      exact rfl
  | cons conflict conflicts ih =>
      refine correct_call (evolves_now w) fun w₁ _ => ?_
      change Correct env _ ((resolveConflicts env commitA commitB newCommitId conflicts).bind _) w₁
      exact correct_bind (ih w₁) fun memories w₂ _ hlength => congrArg Nat.succ hlength

/-- The memories that are made of a difference, one for each entry. -/
def mergedCount (delta : VectorStoreDelta) : Nat :=
  delta.onlyInA.length + delta.onlyInB.length + delta.identical.length + delta.conflicts.length

theorem correct_synthesizeMemory (commitA commitB newCommitId : String) (w : World) :
    Correct env (fun memories w' => ∃ memoriesA memoriesB,
      memories.length = mergedCount (SemanticMerge.diffMemories memoriesA memoriesB) ∧
        ((commitB, memoriesB) :: (commitA, memoriesA) :: w.walks).Sublist w'.walks)
      (synthesizeMemory env commitA commitB newCommitId) w := by
  refine correct_bind (correct_diffMemoryVectors commitA commitB w) ?_
  rintro delta w₁ - ⟨memoriesA, memoriesB, rfl, hwalks⟩
  refine correct_bind (correct_resolveConflicts _ _ _ _ w₁) fun resolved w₂ hw₂ hlength => ?_
  refine ⟨memoriesA, memoriesB, ?_, hwalks.trans hw₂.walks.sublist⟩
  simp only [List.length_append, List.length_map, hlength, mergedCount]

theorem spares_diffMemoryVectors (commitA commitB : String) :
    (diffMemoryVectors commitA commitB).Calls Op.Spares :=
  ⟨trivial, fun _ => ⟨trivial, fun _ => trivial⟩⟩

theorem spares_resolveConflicts (commitA commitB newCommitId : String) (conflicts : List MemoryConflict) :
    (resolveConflicts env commitA commitB newCommitId conflicts).Calls Op.Spares := by
  induction conflicts with
  | nil =>
      trivial
  | cons conflict conflicts ih =>
      exact ⟨trivial, fun _ => ih.bind fun _ => trivial⟩

theorem spares_synthesizeMemory (commitA commitB newCommitId : String) :
    (synthesizeMemory env commitA commitB newCommitId).Calls Op.Spares :=
  (spares_diffMemoryVectors commitA commitB).bind fun _ =>
    (spares_resolveConflicts commitA commitB newCommitId _).bind fun _ => trivial

theorem spares_saveMemories (memories : List MemoryRecord) : (saveMemories memories).Calls Op.Spares := by
  induction memories with
  | nil =>
      trivial
  | cons memory memories ih =>
      exact ⟨trivial, fun _ => ih⟩

/-- What a successful merge says: it has stored how many memories it made of those it found in two walks, and
tells what it found in two later ones. -/
structure MergeDone (env : Env) (w : World) (commitA commitB message author : String)
    (result : MergeResult) : Prop where
  mergeCommitId : result.mergeCommitId = SemanticMerge.mergeId env commitA commitB
  merged : ∃ memoriesA memoriesB laterA laterB,
    [(commitB, laterB), (commitA, laterA), (commitB, memoriesB), (commitA, memoriesA)].Sublist w.walks ∧
    Stored w.store (SemanticMerge.mergeId env commitA commitB)
      (SemanticMerge.mergeState commitA commitB (mergedCount (SemanticMerge.diffMemories memoriesA memoriesB)))
      [commitA, commitB] .merge message author ∧
    result = mergeSummary env commitA commitB (SemanticMerge.diffMemories laterA laterB)

theorem correct_semanticMerge (commitA commitB message author : String) (w : World) :
    Correct env (OnSuccess fun result w' => MergeDone env w' commitA commitB message author result)
      (semanticMerge env commitA commitB message author) w := by
  refine correct_bind (correct_synthesizeMemory _ _ _ w) ?_
  rintro memories w₁ - ⟨memoriesA, memoriesB, hcount, hwalks⟩
  refine correct_bind (correct_of_spares (spares_saveMemories _) w₁) fun _ w₂ hw₂ _ => ?_
  refine correct_andThen (correct_storeCommit _ _ _ _ _ _ w₂) (onSuccess_error _) fun _ w₃ hw₃ hstored => ?_
  refine correct_bind (correct_diffMemoryVectors _ _ w₃) ?_
  rintro delta w₄ hw₄ ⟨laterA, laterB, rfl, hlater⟩
  refine onSuccess_ok ⟨rfl, memoriesA, memoriesB, laterA, laterB, ?_, ?_, rfl⟩
  · -- The first two walks were made before the memories were saved.
    have hearlier : [(commitB, memoriesB), (commitA, memoriesA)].Sublist w₃.walks := by
      refine List.Sublist.trans ?_ (hw₂.trans hw₃).walks.sublist
      exact (((List.nil_sublist w.walks).cons_cons _).cons_cons _).trans hwalks
    exact ((hearlier.cons_cons _).cons_cons _).trans hlater
  · exact hcount ▸ (hstored () rfl).mono hw₄.grows

/-- What the output of a command says about the world. -/
def Done (env : Env) (w : World) : Command → Output → Prop
  | .init, .initialized commitId =>
      commitId = initialId env ∧ Stored w.store commitId initialState [] .normal "Initial commit" "system"
  | .snapshot input, .snapshot commitId => ∃ state, input.prepare env = .ok (state, commitId) ∧
      Stored w.store commitId state input.parent.toList .normal input.message input.author
  | .restore reference, .restored state => ∃ snapshot,
      w.store.snapshots.lookup reference = some snapshot ∧ snapshot.state = state
  | .log reference limit, .history commits => Listed w.store reference limit commits
  | .merge source target message _, .merged result => MergeDone env w source target
      (message.getD ("Merge commit '" ++ source ++ "' into '" ++ target ++ "'")) "agent-git" result
  | .fork _ parent count branchPrefix, .forked result => ForkDone env w.store parent count branchPrefix result
  | _, _ => False

/-- A command that succeeds while others run has done what it says. -/
theorem correct_program (command : Command) (hsound : Sound w.store) :
    Correct env (OnSuccess fun output w' => Done env w' command output) (command.program env) w := by
  cases command with
  | init =>
      refine correct_andThen (P := OnSuccess fun commitId w' => Done env w' .init
        (.initialized commitId)) ?_ (onSuccess_error _) fun id w₁ _ h => onSuccess_ok (h id rfl)
      refine correct_andThen (correct_storeCommit _ _ _ _ _ _ w) (onSuccess_error _) ?_
      exact fun _ w₁ _ hstored => onSuccess_ok ⟨rfl, hstored () rfl⟩
  | snapshot input =>
      refine correct_andThen (P := OnSuccess fun commitId w' => Done env w' (.snapshot input)
        (.snapshot commitId)) ?_ (onSuccess_error _) fun id w₁ _ h => onSuccess_ok (h id rfl)
      unfold cmdSnapshot
      cases hprepare : input.prepare env with
      | error e =>
          exact onSuccess_error _ _ _
      | ok prepared =>
          refine correct_andThen (correct_storeCommit _ _ _ _ _ _ w) (onSuccess_error _) ?_
          exact fun _ w₁ _ hstored => onSuccess_ok ⟨prepared.1, hprepare, hstored () rfl⟩
  | restore reference =>
      refine correct_andThen (P := OnSuccess fun state w' => Done env w' (.restore reference)
        (.restored state)) ?_ (onSuccess_error _) fun state w₁ _ h => onSuccess_ok (h state rfl)
      refine correct_bind (correct_loadSnapshot reference w) fun snapshot w₁ _ hload => ?_
      cases snapshot with
      | error e =>
          exact onSuccess_error _ _ _
      | ok snapshot =>
          exact onSuccess_ok ⟨snapshot, hload snapshot rfl, rfl⟩
  | log reference limit =>
      refine correct_andThen (P := OnSuccess fun commits w' => Done env w' (.log reference limit)
        (.history commits)) ?_ (onSuccess_error _) fun commits w₁ _ h => onSuccess_ok (h commits rfl)
      unfold cmdLog
      split
      · exact onSuccess_error _ _ _
      · have hinit : WalkInv w.store reference [] [] {reference} [reference] :=
          { records := rfl
            nodup := List.nodup_singleton reference
            mem_visited := fun h hh => Finset.mem_singleton.2 (List.mem_singleton.1 hh)
            sound := fun h hh => by rw [List.mem_singleton.1 hh] }
        refine correct_bind (correct_collectHistory hsound hinit (Nat.zero_add limit)) ?_
        exact fun history w₁ _ hlisted => onSuccess_ok hlisted
  | merge source target message currentDir =>
      refine correct_andThen (P := OnSuccess fun result w' => Done env w'
        (.merge source target message currentDir) (.merged result)) ?_ (onSuccess_error _)
        fun result w₁ _ h => onSuccess_ok (h result rfl)
      refine correct_andThen (correct_semanticMerge _ _ _ _ w) (onSuccess_error _) ?_
      intro result w₁ _ hmerged
      cases currentDir with
      | error e =>
          exact onSuccess_error _ _ _
      | ok _ =>
          exact onSuccess_ok (hmerged result rfl)
  | fork schedule parent count branchPrefix =>
      refine correct_andThen (P := OnSuccess fun result w' => Done env w'
        (.fork schedule parent count branchPrefix) (.forked result)) ?_ (onSuccess_error _)
        fun result w₁ _ h => onSuccess_ok (h result rfl)
      exact correct_forkAgentParallel schedule parent count branchPrefix w

end Commands

end VersionControl
end Cli
end Aivcs
