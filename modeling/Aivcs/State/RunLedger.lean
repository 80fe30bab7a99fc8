import Aivcs.Lib.Hash
import Aivcs.Lib.Map
import Aivcs.Lib.Proc
import Aivcs.State.Types

/-!
# State.RunLedger — the two run ledgers

`MemoryRunLedger` of `fakes.rs` is one map behind a lock, so an operation is a function of it.
`SurrealRunLedger` keeps rows in two tables of a database; its operations are programs over the
statements they send (`DbOp`).  Of the database we use that `CREATE` inserts a row unless a unique
index is violated, that `UPDATE … MERGE` overwrites the fields and that `SELECT … ORDER BY` sorts.
Whether awaiting a query reports a failed statement is the parameter `reports`.  `now` is the reading
of the clock, `runId` the identifier a new run is given.
-/

namespace Aivcs
namespace State

open Aivcs.Lib

variable {Value : Type}

/-- The text of the `status` column. -/
def RunStatus.text : RunStatus → String
  | .running => "RUNNING"
  | .completed => "COMPLETED"
  | .failed => "FAILED"
  | .cancelled => "CANCELLED"

/-- `format!("{:?}", status)`. -/
def RunStatus.debug : RunStatus → String
  | .running => "Running"
  | .completed => "Completed"
  | .failed => "Failed"
  | .cancelled => "Cancelled"

/-! ## The fake -/

structure RunState (Value : Type) where
  record : RunRecord Value
  events : List (RunEvent Value)

abbrev MemoryRunLedger (Value : Type) : Type := Map String (RunState Value)

namespace MemoryRunLedger

def createRun (runs : MemoryRunLedger Value) (runId : RunId) (now : Timestamp)
    (specDigest : ContentDigest) (metadata : RunMetadata Value) :
    Except StorageError RunId × MemoryRunLedger Value :=
  let record : RunRecord Value := ⟨runId, specDigest, metadata, .running, none, now, none⟩
  (.ok runId, runs.insert runId ⟨record, []⟩)

/-- `get_mut(run_id)`, the check that the run is still running, and the change of its state. -/
def updateRunning (runs : MemoryRunLedger Value) (runId : RunId)
    (f : RunState Value → RunState Value) : Except StorageError Unit × MemoryRunLedger Value :=
  match runs runId with
  | none => (.error (.runNotFound runId), runs)
  | some state =>
      if state.record.status ≠ .running then
        (.error (.invalidRunState runId state.record.status.debug "Running"), runs)
      else
        (.ok (), runs.insert runId (f state))

def appendEvent (runs : MemoryRunLedger Value) (runId : RunId) (event : RunEvent Value) :
    Except StorageError Unit × MemoryRunLedger Value :=
  runs.updateRunning runId fun state => { state with events := state.events ++ [event] }

/-- The state of a run that ends with `status`. -/
def RunState.finish (status : RunStatus) (summary : RunSummary) (now : Timestamp)
    (state : RunState Value) : RunState Value :=
  { state with record :=
      { state.record with status := status, summary := some summary, completedAt := some now } }

def completeRun (runs : MemoryRunLedger Value) (runId : RunId) (now : Timestamp)
    (summary : RunSummary) : Except StorageError Unit × MemoryRunLedger Value :=
  runs.updateRunning runId (RunState.finish .completed summary now)

def failRun (runs : MemoryRunLedger Value) (runId : RunId) (now : Timestamp)
    (summary : RunSummary) : Except StorageError Unit × MemoryRunLedger Value :=
  runs.updateRunning runId (RunState.finish .failed summary now)

def cancelRun (runs : MemoryRunLedger Value) (runId : RunId) (now : Timestamp)
    (summary : RunSummary) : Except StorageError Unit × MemoryRunLedger Value :=
  runs.updateRunning runId (RunState.finish .cancelled summary now)

def getRun (runs : MemoryRunLedger Value) (runId : RunId) :
    Except StorageError (RunRecord Value) :=
  match runs runId with
  | none => .error (.runNotFound runId)
  | some state => .ok state.record

/-- The events, sorted by `seq` with a stable sort. -/
def getEvents (runs : MemoryRunLedger Value) (runId : RunId) :
    Except StorageError (List (RunEvent Value)) :=
  match runs runId with
  | none => .error (.runNotFound runId)
  | some state => .ok (state.events.insertionSort fun a b => a.seq ≤ b.seq)

end MemoryRunLedger

/-! ## The database -/

/-- A row of `runs`. -/
structure DbRun (Value : Type) where
  runId : String
  specDigest : String
  gitSha : Option String
  agentName : String
  tags : Value
  status : String
  totalEvents : Nat
  finalStateDigest : Option String
  durationMs : Nat
  success : Bool
  rubricPath : Option String
  isPromotionGate : Bool
  agentPhase : UInt8
  createdAt : Timestamp
  completedAt : Option Timestamp
  deriving DecidableEq

/-- A row of `run_events`. -/
structure DbEvent (Value : Type) where
  runId : String
  seq : Nat
  kind : String
  payload : Value
  timestamp : Timestamp
  deriving DecidableEq

namespace DbRun

def new (runId specDigest : String) (gitSha : Option String) (agentName : String) (tags : Value)
    (rubricPath : Option String) (isPromotionGate : Bool) (agentPhase : UInt8) (now : Timestamp) :
    DbRun Value :=
  ⟨runId, specDigest, gitSha, agentName, tags, "RUNNING", 0, none, 0, false, rubricPath,
    isPromotionGate, agentPhase, now, none⟩

def complete (row : DbRun Value) (totalEvents : Nat) (finalStateDigest : Option String)
    (durationMs : Nat) (now : Timestamp) : DbRun Value :=
  { row with
    status := "COMPLETED"
    totalEvents := totalEvents
    finalStateDigest := finalStateDigest
    durationMs := durationMs
    success := true
    completedAt := some now }

/-- Unlike `complete`, takes no final digest. -/
def fail (row : DbRun Value) (totalEvents durationMs : Nat) (now : Timestamp) : DbRun Value :=
  { row with
    status := "FAILED"
    totalEvents := totalEvents
    durationMs := durationMs
    success := false
    completedAt := some now }

def cancel (row : DbRun Value) (totalEvents durationMs : Nat) (now : Timestamp) : DbRun Value :=
  { row with
    status := "CANCELLED"
    totalEvents := totalEvents
    durationMs := durationMs
    success := false
    completedAt := some now }

end DbRun

/-- The timestamp is the time of the call. -/
def DbEvent.new (runId : String) (seq : Nat) (kind : String) (payload : Value) (now : Timestamp) :
    DbEvent Value :=
  ⟨runId, seq, kind, payload, now⟩

structure Db (Value : Type) where
  runs : List (DbRun Value)
  runEvents : List (DbEvent Value)

/-- The statements the ledger sends. -/
inductive DbOp (Value : Type) where
  /-- `SELECT … FROM runs WHERE run_id = $rid` -/
  | selectRun (rid : String)
  /-- `CREATE runs CONTENT $row` -/
  | createRun (row : DbRun Value)
  /-- `CREATE run_events CONTENT $row` -/
  | createEvent (row : DbEvent Value)
  /-- `UPDATE runs MERGE $row WHERE run_id = $rid` -/
  | updateRun (rid : String) (row : DbRun Value)
  /-- `SELECT … FROM run_events WHERE run_id = $rid ORDER BY seq ASC` -/
  | selectEvents (rid : String)

abbrev DbOp.Rows : DbOp Value → Type
  | .selectRun _ => List (DbRun Value)
  | .selectEvents _ => List (DbEvent Value)
  | _ => Unit

/-- The rows, or the text of a database error. -/
abbrev DbOp.Ans (op : DbOp Value) : Type :=
  Except String op.Rows

namespace Db

/-- The answer to a `CREATE` that a unique index refuses. -/
def refused (reports : Bool) : Except String Unit :=
  if reports then .error "index already contains the row" else .ok ()

/-- `MERGE` a row of the same type overwrites every column. -/
def merge (rid : String) (row : DbRun Value) (rows : List (DbRun Value)) : List (DbRun Value) :=
  rows.map fun r => if r.runId = rid then row else r

def exec (reports : Bool) : (op : DbOp Value) → Db Value → op.Ans × Db Value
  | .selectRun rid, db => (.ok (db.runs.filter fun r => r.runId = rid), db)
  | .createRun row, db =>
      if db.runs.any fun r => r.runId = row.runId then (refused reports, db)
      else (.ok (), { db with runs := db.runs ++ [row] })
  | .createEvent row, db =>
      if db.runEvents.any fun e => e.runId = row.runId ∧ e.seq = row.seq then (refused reports, db)
      else (.ok (), { db with runEvents := db.runEvents ++ [row] })
  | .updateRun rid row, db => (.ok (), { db with runs := merge rid row db.runs })
  | .selectEvents rid, db =>
      (.ok ((db.runEvents.filter fun e => e.runId = rid).insertionSort fun a b => a.seq ≤ b.seq), db)

end Db

/-! ## The ledger on the database -/

abbrev LedgerProc (Value α : Type) : Type := Proc (DbOp Value) DbOp.Ans α

namespace SurrealRunLedger

/-- Send a statement; an error of the database is a `Backend` error. -/
def query (op : DbOp Value) : LedgerProc Value (Except StorageError op.Rows) :=
  .call op fun r => .ret (r.mapError .backend)

def fetchRun (rid : RunId) : LedgerProc Value (Except StorageError (DbRun Value)) :=
  (query (.selectRun rid)).andThen fun rows =>
    match rows.head? with
    | none => .ret (.error (.runNotFound rid))
    | some row => .ret (.ok row)

def fetchRunning (rid : RunId) : LedgerProc Value (Except StorageError (DbRun Value)) :=
  (fetchRun rid).andThen fun row =>
    if row.status ≠ "RUNNING" then
      .ret (.error (.invalidRunState rid row.status "RUNNING"))
    else
      .ret (.ok row)

def parseStatus (status : String) : Except StorageError RunStatus :=
  if status = "RUNNING" then .ok .running
  else if status = "COMPLETED" then .ok .completed
  else if status = "FAILED" then .ok .failed
  else if status = "CANCELLED" then .ok .cancelled
  else .error (.backend ("unknown run status: " ++ status))

/-- The summary of a row: none while the run is running. -/
def dbSummary (row : DbRun Value) (status : RunStatus) :
    Except StorageError (Option RunSummary) :=
  if status ≠ .running then do
    let finalStateDigest ← row.finalStateDigest.mapM ContentDigest.tryFrom
    pure (some ⟨row.totalEvents, finalStateDigest, row.durationMs, row.success⟩)
  else
    pure none

def dbRunToRecord (row : DbRun Value) : Except StorageError (RunRecord Value) := do
  let status ← parseStatus row.status
  let summary ← dbSummary row status
  let specDigest ← ContentDigest.tryFrom row.specDigest
  pure
    { runId := row.runId
      specDigest := specDigest
      metadata :=
        { gitSha := row.gitSha
          agentName := row.agentName
          tags := row.tags
          evaluation := ⟨row.rubricPath, row.isPromotionGate, row.agentPhase⟩ }
      status := status
      summary := summary
      createdAt := row.createdAt
      completedAt := row.completedAt }

def dbEventToEvent (row : DbEvent Value) : RunEvent Value :=
  ⟨row.seq, row.kind, row.payload, row.timestamp⟩

def createRun (runId : RunId) (now : Timestamp) (specDigest : ContentDigest)
    (metadata : RunMetadata Value) : LedgerProc Value (Except StorageError RunId) :=
  let row := DbRun.new runId specDigest.str metadata.gitSha metadata.agentName metadata.tags
    metadata.evaluation.rubricPath metadata.evaluation.isPromotionGate
    metadata.evaluation.agentPhase now
  (query (.createRun row)).andThen fun _ => .ret (.ok runId)

def appendEvent (runId : RunId) (now : Timestamp) (event : RunEvent Value) :
    LedgerProc Value (Except StorageError Unit) :=
  (fetchRunning runId).andThen fun _ =>
    (query (.createEvent (DbEvent.new runId event.seq event.kind event.payload now))).andThen
      fun _ => .ret (.ok ())

/-- The guard and the update that the three ways to end a run share. -/
def updateRunning (runId : RunId) (f : DbRun Value → DbRun Value) :
    LedgerProc Value (Except StorageError Unit) :=
  (fetchRunning runId).andThen fun row =>
    (query (.updateRun runId (f row))).andThen fun _ => .ret (.ok ())

def completeRun (runId : RunId) (now : Timestamp) (summary : RunSummary) :
    LedgerProc Value (Except StorageError Unit) :=
  updateRunning runId fun row =>
    row.complete summary.totalEvents (summary.finalStateDigest.map ContentDigest.str)
      summary.durationMs now

def failRun (runId : RunId) (now : Timestamp) (summary : RunSummary) :
    LedgerProc Value (Except StorageError Unit) :=
  updateRunning runId fun row => row.fail summary.totalEvents summary.durationMs now

def cancelRun (runId : RunId) (now : Timestamp) (summary : RunSummary) :
    LedgerProc Value (Except StorageError Unit) :=
  updateRunning runId fun row => row.cancel summary.totalEvents summary.durationMs now

def getRun (runId : RunId) : LedgerProc Value (Except StorageError (RunRecord Value)) :=
  (fetchRun runId).andThen fun row => .ret (dbRunToRecord row)

/-- The run is fetched only to see that it exists. -/
def getEvents (runId : RunId) : LedgerProc Value (Except StorageError (List (RunEvent Value))) :=
  (fetchRun runId).andThen fun _ =>
    (query (.selectEvents runId)).andThen fun rows => .ret (.ok (rows.map dbEventToEvent))

end SurrealRunLedger

end State
end Aivcs
