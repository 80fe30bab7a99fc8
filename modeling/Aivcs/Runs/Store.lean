import Aivcs.Lib.Proc
import Mathlib.Data.List.Basic

/-!
# Runs.Store — CI runs and the two stores that hold them

`InMemoryRunStore` is a list of runs that are changed in place.  `DataMeshRunStore` only ever appends:
a run is the sequence of its events, and its newest event is its state.  Its operations are programs
over the calls of the data-mesh client.

The data-mesh service is not part of this repository; `Collection.exec` is what the client documents
of it: queries answer newest first up to their limit, and a document is inserted under an idempotency
key once.  A document is the record `to_doc` builds, so that `run_from` can always read it.
-/

namespace Aivcs
namespace Runs

open Aivcs.Lib

inductive RunStatus
  | queued
  | running
  | succeeded
  | failed
  deriving DecidableEq, Repr

/-- The `snake_case` name a status is written with. -/
def RunStatus.name : RunStatus → String
  | .queued => "queued"
  | .running => "running"
  | .succeeded => "succeeded"
  | .failed => "failed"

structure Run where
  runId : String
  owner : String
  repo : String
  status : RunStatus
  /-- An instant, in nanoseconds. -/
  createdAt : Nat
  deriving DecidableEq, Repr

/-- `RunStoreError::Backend`. -/
structure RunStoreError where
  message : String
  deriving DecidableEq, Repr

abbrev StoreResult (α : Type) : Type := Except RunStoreError α

/-- What `new_run` takes from its surroundings: a UUID and the time. -/
structure Env where
  uuid : String
  now : Nat
  deriving DecidableEq, Repr

/-- `new_run`. -/
def newRun (env : Env) (owner repo : String) : Run :=
  { runId := "run_" ++ env.uuid, owner := owner, repo := repo, status := .queued
    createdAt := env.now }

/-! ## In memory -/

/-- The runs in the order they were pushed. -/
abbrev InMemoryRunStore := List Run

namespace InMemoryRunStore

/-- Sort by `Reverse(created_at)`; the sort is stable. -/
def newestFirst (runs : List Run) : List Run :=
  runs.mergeSort fun a b => b.createdAt ≤ a.createdAt

def enqueue (runs : InMemoryRunStore) (env : Env) (owner repo : String) :
    StoreResult Run × InMemoryRunStore :=
  (.ok (newRun env owner repo), runs ++ [newRun env owner repo])

def listByRepo (runs : InMemoryRunStore) (owner repo : String) : StoreResult (List Run) :=
  .ok (newestFirst (runs.filter fun r => r.owner = owner ∧ r.repo = repo))

def listAll (runs : InMemoryRunStore) : StoreResult (List Run) :=
  .ok (newestFirst runs)

def get (runs : InMemoryRunStore) (runId : String) : StoreResult (Option Run) :=
  .ok (runs.find? fun r => r.runId = runId)

/-- `min_by` on `created_at`: of equal ones the first. -/
def minByCreatedAt : List (Run × Nat) → Option (Run × Nat)
  | [] => none
  | x :: rest =>
      match minByCreatedAt rest with
      | none => some x
      | some y => if y.1.createdAt < x.1.createdAt then some y else some x

/-- The oldest queued run and its index. -/
def oldestQueued (runs : InMemoryRunStore) : Option (Run × Nat) :=
  minByCreatedAt (runs.zipIdx.filter fun p => p.1.status = .queued)

def claimNextQueued (runs : InMemoryRunStore) : StoreResult (Option Run) × InMemoryRunStore :=
  match oldestQueued runs with
  | some (_, i) =>
      let runs' := runs.modify i fun r => { r with status := .running }
      (.ok runs'[i]?, runs')
  | none => (.ok none, runs)

/-- Change the first run with the id. -/
def update (runId : String) (status : RunStatus) : List Run → List Run
  | [] => []
  | r :: rest =>
      if r.runId = runId then { r with status := status } :: rest
      else r :: update runId status rest

def setStatus (runs : InMemoryRunStore) (runId : String) (status : RunStatus) :
    StoreResult Bool × InMemoryRunStore :=
  if runs.any fun r => r.runId = runId then (.ok true, update runId status runs)
  else (.ok false, runs)

end InMemoryRunStore

/-! ## The data-mesh collection -/

/-- The JSON object of a run's event. -/
structure Document where
  runId : String
  owner : String
  repo : String
  status : RunStatus
  createdAt : Nat
  repoKey : String
  deriving DecidableEq, Repr

/-- The text of a field, for queries. -/
def Document.field? (doc : Document) : String → Option String
  | "run_id" => some doc.runId
  | "owner" => some doc.owner
  | "repo" => some doc.repo
  | "status" => some doc.status.name
  | "repo_key" => some doc.repoKey
  | _ => none

/-- `Created`; its id is not read. -/
structure Created where
  status : String
  deriving DecidableEq, Repr

inductive MeshOp
  | createDocument (doc : Document)
  | createDocumentIdempotent (key : String) (doc : Document)
  | queryDocuments (field value : String) (limit : Option Nat)
  | listDocuments (limit : Option Nat)

@[reducible] def MeshOp.Ans : MeshOp → Type
  | .createDocument _ => Except String Created
  | .createDocumentIdempotent _ _ => Except String Created
  | .queryDocuments _ _ _ => Except String (List Document)
  | .listDocuments _ => Except String (List Document)

abbrev MeshProc (α : Type) : Type := Proc MeshOp MeshOp.Ans α

namespace Client

def createDocument (doc : Document) : MeshProc (Except String Created) :=
  Proc.perform (MeshOp.createDocument doc)

def createDocumentIdempotent (key : String) (doc : Document) : MeshProc (Except String Created) :=
  Proc.perform (MeshOp.createDocumentIdempotent key doc)

def queryDocuments (field value : String) (limit : Option Nat) :
    MeshProc (Except String (List Document)) :=
  Proc.perform (MeshOp.queryDocuments field value limit)

def listDocuments (limit : Option Nat) : MeshProc (Except String (List Document)) :=
  Proc.perform (MeshOp.listDocuments limit)

end Client

/-- The documents, newest first, and the idempotency keys that have been used. -/
structure Collection where
  docs : List Document
  keys : List String
  deriving DecidableEq

namespace Collection

def empty : Collection := ⟨[], []⟩

/-- The first `limit` documents. -/
def limited (limit : Option Nat) (docs : List Document) : List Document :=
  match limit with
  | some n => docs.take n
  | none => docs

def query (c : Collection) (field value : String) (limit : Option Nat) : List Document :=
  limited limit (c.docs.filter fun doc => doc.field? field = some value)

def exec : (op : MeshOp) → Collection → op.Ans × Collection
  | .createDocument doc, c => (.ok ⟨"created"⟩, { c with docs := doc :: c.docs })
  | .createDocumentIdempotent key doc, c =>
      if key ∈ c.keys then (.ok ⟨"exists"⟩, c)
      else (.ok ⟨"created"⟩, { docs := doc :: c.docs, keys := key :: c.keys })
  | .queryDocuments field value limit, c => (.ok (c.query field value limit), c)
  | .listDocuments limit, c => (.ok (limited limit c.docs), c)

theorem mem_docs_of_mem_query {c : Collection} {field value : String} {limit : Option Nat}
    {doc : Document} (h : doc ∈ c.query field value limit) : doc ∈ c.docs := by
  unfold query limited at h
  cases limit with
  | none =>
      exact List.mem_of_mem_filter h
  | some n =>
      exact List.mem_of_mem_filter (List.mem_of_mem_take h)

end Collection

/-! ## The durable store -/

namespace DataMeshRunStore

def repoKey (owner repo : String) : String :=
  owner ++ "/" ++ repo

def toDoc (run : Run) : Document :=
  { runId := run.runId, owner := run.owner, repo := run.repo, status := run.status
    createdAt := run.createdAt, repoKey := repoKey run.owner run.repo }

def runFrom (doc : Document) : Option Run :=
  some { runId := doc.runId, owner := doc.owner, repo := doc.repo, status := doc.status
         createdAt := doc.createdAt }

@[simp] theorem runFrom_toDoc (run : Run) : runFrom (toDoc run) = some run := rfl

/-- A client call, its failure as `backend_err` wraps it. -/
def backend {α : Type} (p : MeshProc (Except String α)) : MeshProc (StoreResult α) :=
  p.bind fun
    | .ok a => .ret (.ok a)
    | .error e => .ret (.error ⟨e⟩)

def append (run : Run) : MeshProc (StoreResult Unit) :=
  (backend (Client.createDocument (toDoc run))).andThen fun _ => .ret (.ok ())

def enqueue (env : Env) (owner repo : String) : MeshProc (StoreResult Run) :=
  (append (newRun env owner repo)).andThen fun _ => .ret (.ok (newRun env owner repo))

/-- Fold newest-first events to the newest event of each run. -/
def newestPerRun : List String → List Run → List Run
  | _, [] => []
  | seen, run :: rest =>
      if run.runId ∈ seen then newestPerRun seen rest
      else run :: newestPerRun (run.runId :: seen) rest

def listByRepo (owner repo : String) : MeshProc (StoreResult (List Run)) :=
  (backend (Client.queryDocuments "repo_key" (repoKey owner repo) (some 500))).andThen
    fun docs => .ret (.ok (newestPerRun [] (docs.filterMap runFrom)))

def listAll : MeshProc (StoreResult (List Run)) :=
  (backend (Client.listDocuments (some 1000))).andThen
    fun docs => .ret (.ok (newestPerRun [] (docs.filterMap runFrom)))

def get (runId : String) : MeshProc (StoreResult (Option Run)) :=
  (backend (Client.queryDocuments "run_id" runId (some 1))).andThen
    fun docs => .ret (.ok (docs.head?.bind runFrom))

/-- The key under which a run is claimed. -/
def claimKey (runId : String) : String :=
  "claim:" ++ runId

/-- The loop of `claim_next_queued` over the candidates, oldest event first. -/
def claimFrom : List String → List Run → MeshProc (StoreResult (Option Run))
  | _, [] => .ret (.ok none)
  | seen, cand :: rest =>
      if cand.runId ∈ seen then
        claimFrom seen rest
      else
        (get cand.runId).andThen fun
          | none => claimFrom (cand.runId :: seen) rest
          | some current =>
              -- A later event may have moved the run on.
              if current.status ≠ .queued then
                claimFrom (cand.runId :: seen) rest
              else
                let running := { current with status := .running }
                (backend (Client.createDocumentIdempotent (claimKey running.runId)
                  (toDoc running))).andThen
                  fun created =>
                    -- Another engine was first.
                    if created.status = "exists" then claimFrom (cand.runId :: seen) rest
                    else .ret (.ok (some running))

def claimNextQueued : MeshProc (StoreResult (Option Run)) :=
  (backend (Client.queryDocuments "status" "queued" (some 100))).andThen
    fun docs => claimFrom [] (docs.filterMap runFrom).reverse

def setStatus (runId : String) (status : RunStatus) : MeshProc (StoreResult Bool) :=
  (get runId).andThen fun
    | some current => (append { current with status := status }).andThen fun _ => .ret (.ok true)
    | none => .ret (.ok false)

end DataMeshRunStore

/-! ## Calls -/

/-- A call of the `RunStore` trait. -/
inductive Call
  | enqueue (env : Env) (owner repo : String)
  | listByRepo (owner repo : String)
  | listAll
  | get (runId : String)
  | claimNextQueued
  | setStatus (runId : String) (status : RunStatus)
  deriving DecidableEq

/-- What a call returns. -/
inductive Reply
  | enqueued (r : StoreResult Run)
  | listed (r : StoreResult (List Run))
  | found (r : StoreResult (Option Run))
  | claimed (r : StoreResult (Option Run))
  | updated (r : StoreResult Bool)
  deriving DecidableEq

/-- A call on the durable store. -/
def Call.program : Call → MeshProc Reply
  | .enqueue env owner repo => (DataMeshRunStore.enqueue env owner repo).bind (.ret ∘ .enqueued)
  | .listByRepo owner repo => (DataMeshRunStore.listByRepo owner repo).bind (.ret ∘ .listed)
  | .listAll => DataMeshRunStore.listAll.bind (.ret ∘ .listed)
  | .get runId => (DataMeshRunStore.get runId).bind (.ret ∘ .found)
  | .claimNextQueued => DataMeshRunStore.claimNextQueued.bind (.ret ∘ .claimed)
  | .setStatus runId status => (DataMeshRunStore.setStatus runId status).bind (.ret ∘ .updated)

/-- A call on the store in memory. -/
def Call.inMemory : Call → InMemoryRunStore → Reply × InMemoryRunStore
  | .enqueue env owner repo, runs => (runs.enqueue env owner repo).map .enqueued id
  | .listByRepo owner repo, runs => (.listed (runs.listByRepo owner repo), runs)
  | .listAll, runs => (.listed runs.listAll, runs)
  | .get runId, runs => (.found (runs.get runId), runs)
  | .claimNextQueued, runs => runs.claimNextQueued.map .claimed id
  | .setStatus runId status, runs => (runs.setStatus runId status).map .updated id

end Runs
end Aivcs
