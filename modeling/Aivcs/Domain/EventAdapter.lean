import Aivcs.Domain.Digest
import Aivcs.State.RunLedger

/-!
# Domain.EventAdapter — graph events in the run ledger

`map_event` turns an event of the graph engine into a kind and a payload; `LedgerHandler` creates a run,
appends what it handles and ends the run with a summary.

The events are types of another crate.  The adapter does no more with most of their fields than to
serialise them, so a field stands here for what it serialises to.
-/

namespace Aivcs
namespace Domain

open Lib State

inductive GraphEvent where
  | started (graphName entryPoint : Value)
  | completed (iterations durationMs : Value)
  | error (error : Value)
  | interrupted (reason nodeId : Value)

inductive NodeEvent where
  | entered (nodeId iteration : Value)
  | exited (nodeId nextNode durationMs : Value)
  | error (nodeId error : Value)
  | retrying (nodeId attempt delayMs : Value)

inductive CheckpointEvent where
  | saved (checkpointId nodeId : Value)
  | restored (checkpointId nodeId : Value)
  | deleted (checkpointId : Value)

inductive StateEvent where
  | updated (nodeId keysChanged : Value)
  | messageAdded (role contentLength : Value)

inductive BusEventKind where
  | graph (g : GraphEvent)
  | node (n : NodeEvent)
  | checkpoint (c : CheckpointEvent)
  | state (s : StateEvent)
  | custom (name : String) (payload : Value)
  /-- Serialising it may fail. -/
  | executionControl (ec : Option Value)
  /-- A variant the adapter does not list. -/
  | other

structure BusEvent where
  kind : BusEventKind
  timestamp : Timestamp

/-- `json!` of an object. -/
def object (members : List (String × Value)) (nodup : (members.map Prod.fst).Nodup) : Value where
  doc := .obj (members.map fun m => (m.1, m.2.doc))
  unique := by
    refine Doc.uniqueKeys_obj.2 ⟨?_, ?_⟩
    · simpa [Function.comp_def] using nodup
    · intro m hm
      rcases List.mem_map.1 hm with ⟨member, -, rfl⟩
      exact member.2.unique

def mapEvent : BusEventKind → String × Value
  | .graph (.started graphName entryPoint) =>
      ("graph_started",
        object [("graph_name", graphName), ("entry_point", entryPoint)] (by simp))
  | .graph (.completed iterations durationMs) =>
      ("graph_completed",
        object [("iterations", iterations), ("duration_ms", durationMs)] (by simp))
  | .graph (.error error) => ("graph_failed", object [("error", error)] (by simp))
  | .graph (.interrupted reason nodeId) =>
      ("graph_interrupted", object [("reason", reason), ("node_id", nodeId)] (by simp))
  | .node (.entered nodeId iteration) =>
      ("node_entered", object [("node_id", nodeId), ("iteration", iteration)] (by simp))
  | .node (.exited nodeId nextNode durationMs) =>
      ("node_exited",
        object [("node_id", nodeId), ("next_node", nextNode), ("duration_ms", durationMs)] (by simp))
  | .node (.error nodeId error) =>
      ("node_failed", object [("node_id", nodeId), ("error", error)] (by simp))
  | .node (.retrying nodeId attempt delayMs) =>
      ("node_retrying",
        object [("node_id", nodeId), ("attempt", attempt), ("delay_ms", delayMs)] (by simp))
  | .checkpoint (.saved checkpointId nodeId) =>
      ("checkpoint_saved",
        object [("checkpoint_id", checkpointId), ("node_id", nodeId)] (by simp))
  | .checkpoint (.restored checkpointId nodeId) =>
      ("checkpoint_restored",
        object [("checkpoint_id", checkpointId), ("node_id", nodeId)] (by simp))
  | .checkpoint (.deleted checkpointId) =>
      ("checkpoint_deleted", object [("checkpoint_id", checkpointId)] (by simp))
  | .state (.updated nodeId keysChanged) =>
      ("state_updated", object [("node_id", nodeId), ("keys_changed", keysChanged)] (by simp))
  | .state (.messageAdded role contentLength) =>
      ("message_added", object [("role", role), ("content_length", contentLength)] (by simp))
  | .custom name payload => ("Custom:" ++ name, payload)
  | .executionControl ec => ("execution_control", ec.getD (object [] (by simp)))
  | .other => ("unknown", object [] (by simp))

/-- The errors that make a run fail. -/
def BusEventKind.isError : BusEventKind → Bool
  | .graph (.error _) => true
  | .node (.error ..) => true
  | _ => false

/-- The event that is appended for an event of the bus. -/
def adapted (seq : Nat) (event : BusEvent) : RunEvent Value where
  seq := seq
  kind := (mapEvent event.kind).1
  payload := (mapEvent event.kind).2
  timestamp := event.timestamp

/-! ## The handler -/

structure LedgerHandler where
  specDigest : ContentDigest
  metadata : RunMetadata Value
  runId : Option RunId
  /-- The number the next event is given. -/
  seq : Nat
  sawError : Bool
  startTime : Option Timestamp

/-- An event of the bus with what becomes of its append: the ledger refuses it or carries it out. -/
abbrev Handled : Type := BusEvent × Option StorageError

namespace LedgerHandler

def new (specDigest : ContentDigest) (metadata : RunMetadata Value) : LedgerHandler :=
  ⟨specDigest, metadata, none, 1, false, none⟩

def onStart (handler : LedgerHandler) (fresh : RunId) (now : Timestamp)
    (runs : MemoryRunLedger Value) : LedgerHandler × MemoryRunLedger Value :=
  let handler := { handler with startTime := some now }
  match runs.createRun fresh now handler.specDigest handler.metadata with
  | (.ok id, runs) => ({ handler with runId := some id }, runs)
  | (.error _, runs) => (handler, runs)

/-- `append_event` of a ledger that may refuse it. -/
def append (refusal : Option StorageError) (runs : MemoryRunLedger Value) (id : RunId)
    (event : RunEvent Value) : Except StorageError Unit × MemoryRunLedger Value :=
  match refusal with
  | some e => (.error e, runs)
  | none => runs.appendEvent id event

def handle (s : LedgerHandler × MemoryRunLedger Value) (event : Handled) :
    LedgerHandler × MemoryRunLedger Value :=
  match s.1.runId with
  | none => s
  | some id =>
      let handler := { s.1 with sawError := s.1.sawError || event.1.kind.isError }
      -- The number is taken before the append; an append that fails is only warned of.
      ({ handler with seq := handler.seq + 1 },
        (append event.2 s.2 id (adapted handler.seq event.1)).2)

/-- `elapsed().as_millis()`. -/
def elapsedMs (handler : LedgerHandler) (now : Timestamp) : Nat :=
  match handler.startTime with
  | some start => ((now - start) / 1000000).toNat
  | none => 0

def onStop (handler : LedgerHandler) (now : Timestamp) (runs : MemoryRunLedger Value) :
    MemoryRunLedger Value :=
  match handler.runId with
  | none => runs
  | some id =>
      let success := !handler.sawError
      let summary : RunSummary := ⟨handler.seq - 1, none, handler.elapsedMs now, success⟩
      if success then (runs.completeRun id now summary).2 else (runs.failRun id now summary).2

/-- A handler from its start to its stop. -/
def session (handler : LedgerHandler) (fresh : RunId) (start stop : Timestamp)
    (events : List Handled) (runs : MemoryRunLedger Value) : MemoryRunLedger Value :=
  let s := events.foldl handle (handler.onStart fresh start runs)
  s.1.onStop stop s.2

end LedgerHandler

end Domain
end Aivcs
