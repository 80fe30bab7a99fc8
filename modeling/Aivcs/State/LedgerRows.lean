import Aivcs.State.RunLedger

/-!
# State.LedgerRows — how rows hold what the fake holds

The rows of one run, and what it means that they hold the state the fake has for it (`Linked`).  On
linked ledgers the guard of the operations on a running run lets both go on or neither
(`Linked.guard_cases`), and reading a row gives back the record.
-/

namespace Aivcs
namespace State

open Aivcs.Lib

variable {Value : Type}

/-! ## The rows of a run -/

namespace Db

/-- The rows of `runs` with this identifier. -/
def rowsOf (db : Db Value) (rid : RunId) : List (DbRun Value) :=
  db.runs.filter fun r => r.runId = rid

/-- The rows of `run_events` with this identifier, in the order of insertion. -/
def eventsOf (db : Db Value) (rid : RunId) : List (DbEvent Value) :=
  db.runEvents.filter fun e => e.runId = rid

variable {reports : Bool} {db : Db Value} {rid : RunId}

theorem exec_createRun_new {row : DbRun Value} (h : db.rowsOf row.runId = []) :
    exec reports (.createRun row) db = (.ok (), { db with runs := db.runs ++ [row] }) := by
  have hany : ¬ db.runs.any (fun r => r.runId = row.runId) = true := by
    simpa [rowsOf] using h
  simp only [exec]
  rw [if_neg hany]

theorem any_runEvents_iff {seq : Nat} :
    db.runEvents.any (fun e => e.runId = rid ∧ e.seq = seq) = true ↔
      ∃ e ∈ db.eventsOf rid, e.seq = seq := by
  simp [eventsOf, and_assoc]

theorem exec_createEvent_new {row : DbEvent Value}
    (h : ¬ ∃ e ∈ db.eventsOf row.runId, e.seq = row.seq) :
    exec reports (.createEvent row) db =
      (.ok (), { db with runEvents := db.runEvents ++ [row] }) := by
  simp only [exec]
  rw [if_neg fun hany => h (any_runEvents_iff.mp hany)]

theorem exec_createEvent_used {row : DbEvent Value}
    (h : ∃ e ∈ db.eventsOf row.runId, e.seq = row.seq) :
    exec reports (.createEvent row) db = (refused reports, db) := by
  simp only [exec]
  rw [if_pos (any_runEvents_iff.mpr h)]

theorem rowsOf_concat (row : DbRun Value) :
    rowsOf { db with runs := db.runs ++ [row] } rid =
      if row.runId = rid then db.rowsOf rid ++ [row] else db.rowsOf rid := by
  unfold rowsOf
  rw [List.filter_append]
  by_cases h : row.runId = rid <;> simp [h]

theorem eventsOf_concat (row : DbEvent Value) :
    eventsOf { db with runEvents := db.runEvents ++ [row] } rid =
      if row.runId = rid then db.eventsOf rid ++ [row] else db.eventsOf rid := by
  unfold eventsOf
  rw [List.filter_append]
  by_cases h : row.runId = rid <;> simp [h]

/-- The updated row stands in the place of every row it replaces. -/
theorem rowsOf_merge {row : DbRun Value} (h : row.runId = rid) (rid' : RunId) :
    rowsOf { db with runs := merge rid row db.runs } rid' =
      if rid' = rid then (db.rowsOf rid).map fun _ => row else db.rowsOf rid' := by
  unfold rowsOf merge
  induction db.runs with
  | nil =>
      split <;> rfl
  | cons r rows ih =>
      by_cases hr : r.runId = rid
      · by_cases hrid : rid' = rid
        · subst hrid
          simpa [hr, h] using ih
        · have hne : rid ≠ rid' := fun heq => hrid heq.symm
          simpa [hr, h, hrid, hne] using ih
      · by_cases hrid : rid' = rid
        · subst hrid
          simpa [hr] using ih
        · by_cases hr' : r.runId = rid'
          · simpa [hr, hrid, hr'] using ih
          · simpa [hr, hrid, hr'] using ih

end Db

/-! ## Rows and records -/

/-- A run record without the times the ledger assigns. -/
structure RunView (Value : Type) where
  runId : RunId
  specDigest : ContentDigest
  metadata : RunMetadata Value
  status : RunStatus
  summary : Option RunSummary
  deriving DecidableEq

def RunRecord.view (record : RunRecord Value) : RunView Value :=
  ⟨record.runId, record.specDigest, record.metadata, record.status, record.summary⟩

/-- A row holds a record. -/
structure Represents (row : DbRun Value) (record : RunRecord Value) : Prop where
  runId : row.runId = record.runId
  specDigest : row.specDigest = record.specDigest.str
  gitSha : row.gitSha = record.metadata.gitSha
  agentName : row.agentName = record.metadata.agentName
  tags : row.tags = record.metadata.tags
  rubricPath : row.rubricPath = record.metadata.evaluation.rubricPath
  isPromotionGate : row.isPromotionGate = record.metadata.evaluation.isPromotionGate
  agentPhase : row.agentPhase = record.metadata.evaluation.agentPhase
  status : row.status = record.status.text
  running : record.status = .running → record.summary = none ∧ row.finalStateDigest = none
  ended : record.status ≠ .running →
    record.summary.map (fun s => (s.totalEvents, s.finalStateDigest.map ContentDigest.str,
      s.durationMs, s.success)) =
    some (row.totalEvents, row.finalStateDigest, row.durationMs, row.success)

namespace SurrealRunLedger

@[simp] theorem parseStatus_text (status : RunStatus) : parseStatus status.text = .ok status := by
  cases status <;> rfl

theorem text_eq_running_iff (status : RunStatus) : status.text = "RUNNING" ↔ status = .running := by
  cases status <;> simp [RunStatus.text]

theorem mapM_tryFrom_str (digest : Option ContentDigest) :
    (digest.map ContentDigest.str).mapM ContentDigest.tryFrom = Except.ok digest := by
  cases digest with
  | none =>
      rfl
  | some d =>
      rw [Option.map_some, Option.mapM_some, ContentDigest.tryFrom_str]
      rfl

theorem dbSummary_eq {row : DbRun Value} {record : RunRecord Value} (h : Represents row record) :
    dbSummary row record.status = .ok record.summary := by
  by_cases hrunning : record.status = .running
  · rw [(h.running hrunning).1, hrunning]
    rfl
  · have hended := h.ended hrunning
    cases hs : record.summary with
    | none =>
        simp [hs] at hended
    | some s =>
        rw [hs, Option.map_some, Option.some.injEq] at hended
        simp only [Prod.mk.injEq] at hended
        obtain ⟨htotal, hdigest, hduration, hsuccess⟩ := hended
        unfold dbSummary
        rw [if_pos hrunning, ← htotal, ← hdigest, ← hduration, ← hsuccess, mapM_tryFrom_str]
        rfl

/-- Reading a row gives back the record it holds. -/
theorem dbRunToRecord_view {row : DbRun Value} {record : RunRecord Value}
    (h : Represents row record) : (dbRunToRecord row).map RunRecord.view = .ok record.view := by
  unfold dbRunToRecord
  rw [h.status, parseStatus_text, h.specDigest, ContentDigest.tryFrom_str, h.runId, h.gitSha,
    h.agentName, h.tags, h.rubricPath, h.isPromotionGate, h.agentPhase]
  have hsummary := dbSummary_eq h
  simp only [bind, Except.bind, hsummary, pure, Except.pure, Except.map]
  rfl

end SurrealRunLedger

/-! ## Two linked ledgers -/

/-- What the fake and the database know of one run agrees. -/
inductive Linked : Option (RunState Value) → List (DbRun Value) → List (DbEvent Value) → Prop
  | unknown : Linked none [] []
  | known {state : RunState Value} {row : DbRun Value} {rows : List (DbEvent Value)}
      (hrow : Represents row state.record)
      (hevents : rows.map SurrealRunLedger.dbEventToEvent = state.events)
      (hseq : (state.events.map RunEvent.seq).Nodup) : Linked (some state) [row] rows

section Run

variable {reports : Bool} {runs : MemoryRunLedger Value} {db : Db Value} {rid : RunId}

open SurrealRunLedger

theorem run_fetchRun_error (h : db.rowsOf rid = []) :
    (fetchRun rid).run (Db.exec reports) db = (.error (.runNotFound rid), db) := by
  unfold Db.rowsOf at h
  simp [fetchRun, query, Db.exec, h, Except.mapError]

theorem run_fetchRun_ok {row : DbRun Value} (h : db.rowsOf rid = [row]) :
    (fetchRun rid).run (Db.exec reports) db = (.ok row, db) := by
  unfold Db.rowsOf at h
  simp [fetchRun, query, Db.exec, h, Except.mapError]

theorem run_fetchRunning_ok {row : DbRun Value} (h : db.rowsOf rid = [row])
    (hstatus : row.status = "RUNNING") :
    (fetchRunning rid).run (Db.exec reports) db = (.ok row, db) := by
  rw [fetchRunning, Proc.run_andThen_ok _ (run_fetchRun_ok h), if_neg (not_not.mpr hstatus),
    Proc.run_ret]

theorem run_fetchRunning_error {row : DbRun Value} (h : db.rowsOf rid = [row])
    (hstatus : row.status ≠ "RUNNING") :
    (fetchRunning rid).run (Db.exec reports) db =
      (.error (.invalidRunState rid row.status "RUNNING"), db) := by
  rw [fetchRunning, Proc.run_andThen_ok _ (run_fetchRun_ok h), if_pos hstatus, Proc.run_ret]

theorem run_getRun_known {row : DbRun Value} {record : RunRecord Value}
    (hrows : db.rowsOf rid = [row]) (hrow : Represents row record) :
    ((getRun rid).run (Db.exec reports) db).1.map RunRecord.view = .ok record.view := by
  rw [getRun, Proc.run_andThen_ok _ (run_fetchRun_ok hrows), Proc.run_ret]
  exact dbRunToRecord_view hrow

theorem run_getEvents_known {row : DbRun Value} {events : List (RunEvent Value)}
    (hrows : db.rowsOf rid = [row]) (hevents : (db.eventsOf rid).map dbEventToEvent = events) :
    ((getEvents rid).run (Db.exec reports) db).1 =
      .ok (events.insertionSort fun a b => a.seq ≤ b.seq) := by
  rw [getEvents, Proc.run_andThen_ok _ (run_fetchRun_ok hrows)]
  simp only [query, Proc.andThen_call, Proc.run_call, Db.exec, Except.mapError,
    Proc.andThen_ret_ok, Proc.run_ret, Except.ok.injEq]
  rw [← hevents]
  exact List.map_insertionSort _ _ _ _ fun a _ b _ => Iff.rfl

/-- The row of a run that has been created. -/
def newRow (rid : RunId) (now : Timestamp) (d : ContentDigest) (m : RunMetadata Value) :
    DbRun Value :=
  DbRun.new rid d.str m.gitSha m.agentName m.tags m.evaluation.rubricPath
    m.evaluation.isPromotionGate m.evaluation.agentPhase now

theorem run_createRun_new (hrows : db.rowsOf rid = []) (now : Timestamp) (d : ContentDigest)
    (m : RunMetadata Value) :
    (createRun rid now d m).run (Db.exec reports) db =
      (.ok rid, { db with runs := db.runs ++ [newRow rid now d m] }) := by
  have hexec : Db.exec reports (.createRun (newRow rid now d m)) db =
      (.ok (), { db with runs := db.runs ++ [newRow rid now d m] }) := Db.exec_createRun_new hrows
  unfold createRun query
  simp only [Proc.andThen_call, Proc.run_call]
  rw [← newRow, hexec]
  rfl

theorem linked_create (hrows : db.rowsOf rid = []) (hevents : db.eventsOf rid = [])
    (now : Timestamp) (d : ContentDigest) (m : RunMetadata Value) :
    Linked (some ⟨⟨rid, d, m, .running, none, now, none⟩, []⟩)
      (Db.rowsOf { db with runs := db.runs ++ [newRow rid now d m] } rid)
      (Db.eventsOf { db with runs := db.runs ++ [newRow rid now d m] } rid) := by
  have hid : (newRow rid now d m).runId = rid := rfl
  rw [Db.rowsOf_concat, if_pos hid, hrows]
  refine Linked.known ?_ ?_ List.nodup_nil
  · exact ⟨rfl, rfl, rfl, rfl, rfl, rfl, rfl, rfl, rfl, fun _ => ⟨rfl, rfl⟩,
      fun hended => absurd rfl hended⟩
  · exact congrArg (List.map _) hevents

/-- A run that is running in both ledgers. -/
structure Active (runs : MemoryRunLedger Value) (db : Db Value) (rid : RunId)
    (state : RunState Value) (row : DbRun Value) : Prop where
  memory : runs rid = some state
  running : state.record.status = .running
  rows : db.rowsOf rid = [row]
  represents : Represents row state.record
  events : (db.eventsOf rid).map dbEventToEvent = state.events
  seq_nodup : (state.events.map RunEvent.seq).Nodup

theorem Active.status {state : RunState Value} {row : DbRun Value}
    (h : Active runs db rid state row) : row.status = "RUNNING" := by
  rw [h.represents.status, h.running]
  rfl

theorem Active.row_runId {state : RunState Value} {row : DbRun Value}
    (h : Active runs db rid state row) : row.runId = rid := by
  have hmem : row ∈ db.rowsOf rid := by simp [h.rows]
  simpa using (List.mem_filter.mp hmem).2

theorem Active.updateRunning {state : RunState Value} {row : DbRun Value}
    (h : Active runs db rid state row) (f : RunState Value → RunState Value) :
    runs.updateRunning rid f = (.ok (), runs.insert rid (f state)) := by
  simp [MemoryRunLedger.updateRunning, h.memory, h.running]

theorem run_appendEvent_active {state : RunState Value} {row : DbRun Value}
    (h : Active runs db rid state row) (now : Timestamp) (event : RunEvent Value) :
    (appendEvent rid now event).run (Db.exec reports) db =
      ((Db.exec reports (.createEvent
          (DbEvent.new rid event.seq event.kind event.payload now)) db).1.mapError .backend,
        (Db.exec reports (.createEvent
          (DbEvent.new rid event.seq event.kind event.payload now)) db).2) := by
  rw [appendEvent, Proc.run_andThen_ok _ (run_fetchRunning_ok h.rows h.status)]
  simp only [query, Proc.andThen_call, Proc.run_call]
  generalize Db.exec reports _ db = r
  rcases r with ⟨_ | _, db'⟩ <;> rfl

theorem run_updateRunning_active {state : RunState Value} {row : DbRun Value}
    (h : Active runs db rid state row) (f : DbRun Value → DbRun Value) :
    (updateRunning rid f).run (Db.exec reports) db =
      (.ok (), { db with runs := Db.merge rid (f row) db.runs }) := by
  rw [updateRunning, Proc.run_andThen_ok _ (run_fetchRunning_ok h.rows h.status)]
  rfl

/-- Inserting an event with a `seq` that is not in use. -/
theorem Active.linked_append {state : RunState Value} {row : DbRun Value}
    (h : Active runs db rid state row) {event : DbEvent Value} (hid : event.runId = rid)
    (hnew : ∀ e ∈ state.events, e.seq ≠ event.seq) :
    Linked (some { state with events := state.events ++ [dbEventToEvent event] })
      (Db.rowsOf { db with runEvents := db.runEvents ++ [event] } rid)
      (Db.eventsOf { db with runEvents := db.runEvents ++ [event] } rid) := by
  have hrows : Db.rowsOf { db with runEvents := db.runEvents ++ [event] } rid = [row] := h.rows
  rw [hrows, Db.eventsOf_concat, if_pos hid]
  refine Linked.known h.represents ?_ ?_
  · rw [List.map_append, h.events]
    rfl
  · rw [List.map_append, List.nodup_append]
    refine ⟨h.seq_nodup, List.nodup_singleton _, ?_⟩
    rintro _ hold _ hseq
    obtain ⟨e, he, rfl⟩ := List.mem_map.mp hold
    rw [List.map_singleton, List.mem_singleton] at hseq
    rw [hseq]
    exact hnew e he

/-- The guard of the operations on a running run lets both ledgers go on, or none. -/
theorem Linked.guard_cases (reports : Bool)
    (h : Linked (runs rid) (db.rowsOf rid) (db.eventsOf rid)) :
    (∃ e e' : StorageError, e.kind = e'.kind ∧ (∀ f, runs.updateRunning rid f = (.error e, runs)) ∧
      (fetchRunning rid).run (Db.exec reports) db = (.error e', db) ∧
      ∀ state, runs rid = some state → state.record.status ≠ .running) ∨
    ∃ state row, Active runs db rid state row := by
  generalize hm : runs rid = m at h
  generalize hrows : db.rowsOf rid = rows at h
  generalize hevents : db.eventsOf rid = events at h
  cases h with
  | unknown =>
      refine Or.inl ⟨.runNotFound rid, .runNotFound rid, rfl, ?_, ?_, ?_⟩
      · intro f
        simp [MemoryRunLedger.updateRunning, hm]
      · rw [fetchRunning, Proc.run_andThen_error _ (run_fetchRun_error hrows)]
      · intro state hstate
        cases hstate
  | @known state row _ hrow hconv hseq =>
      by_cases hrunning : state.record.status = .running
      · exact Or.inr ⟨state, row, hm, hrunning, hrows, hrow, hevents ▸ hconv, hseq⟩
      · refine Or.inl ⟨.invalidRunState rid state.record.status.debug "Running", _, ?_, ?_,
          run_fetchRunning_error hrows ?_, ?_⟩
        · rfl
        · intro f
          simp [MemoryRunLedger.updateRunning, hm, hrunning]
        · rw [hrow.status, Ne, text_eq_running_iff]
          exact hrunning
        · intro state' hstate'
          rw [← Option.some.inj hstate']
          exact hrunning

end Run

/-! ## What the database keeps of an ended run -/

/-- The summary the database keeps when a run ends with `status`. -/
def keptSummary (status : RunStatus) (summary : RunSummary) : RunSummary :=
  match status with
  | .completed => { summary with success := true }
  | _ => { summary with success := false, finalStateDigest := none }

theorem keptSummary_completed (summary : RunSummary) :
    keptSummary .completed summary = summary ↔ summary.success = true := by
  cases summary
  simp [keptSummary, eq_comm]

theorem keptSummary_of_ne {status : RunStatus} (h : status ≠ .completed) (summary : RunSummary) :
    keptSummary status summary = summary ↔
      summary.success = false ∧ summary.finalStateDigest = none := by
  cases summary
  cases status <;> simp_all [keptSummary, eq_comm, and_comm]

/-- Setting the columns of a running row ends it with `status` and what is kept of `summary`. -/
structure Ends (f : DbRun Value → DbRun Value) (status : RunStatus) (summary : RunSummary)
    (now : Timestamp) : Prop where
  runId : ∀ row, (f row).runId = row.runId
  represents : ∀ row record, Represents row record → record.status = .running →
    Represents (f row) { record with
      status := status, summary := some (keptSummary status summary), completedAt := some now }

/-- The rows of a run that has ended. -/
theorem Active.linked_finish {runs : MemoryRunLedger Value} {db : Db Value} {rid : RunId}
    {state : RunState Value} {row : DbRun Value} {f : DbRun Value → DbRun Value}
    {status : RunStatus} {summary : RunSummary} {now : Timestamp}
    (h : Active runs db rid state row) (hends : Ends f status summary now) :
    Linked (some (MemoryRunLedger.RunState.finish status (keptSummary status summary) now state))
      (Db.rowsOf { db with runs := Db.merge rid (f row) db.runs } rid)
      (Db.eventsOf { db with runs := Db.merge rid (f row) db.runs } rid) := by
  have hrows : Db.rowsOf { db with runs := Db.merge rid (f row) db.runs } rid = [f row] := by
    rw [Db.rowsOf_merge ((hends.runId row).trans h.row_runId), if_pos rfl, h.rows]
    rfl
  rw [hrows]
  exact Linked.known (hends.represents row state.record h.represents h.running) h.events
    h.seq_nodup

theorem ends_complete (summary : RunSummary) (now : Timestamp) :
    Ends (fun row : DbRun Value => row.complete summary.totalEvents
      (summary.finalStateDigest.map ContentDigest.str) summary.durationMs now)
      .completed summary now := by
  refine ⟨fun _ => rfl, ?_⟩
  intro row record h _
  exact ⟨h.runId, h.specDigest, h.gitSha, h.agentName, h.tags, h.rubricPath, h.isPromotionGate,
    h.agentPhase, rfl, (fun hrunning => nomatch hrunning), fun _ => rfl⟩

theorem ends_fail (summary : RunSummary) (now : Timestamp) :
    Ends (fun row : DbRun Value => row.fail summary.totalEvents summary.durationMs now)
      .failed summary now := by
  refine ⟨fun _ => rfl, ?_⟩
  intro row record h hrunning
  have hdigest := (h.running hrunning).2
  exact ⟨h.runId, h.specDigest, h.gitSha, h.agentName, h.tags, h.rubricPath, h.isPromotionGate,
    h.agentPhase, rfl, (fun hrunning => nomatch hrunning),
    fun _ => by simp [keptSummary, DbRun.fail, hdigest]⟩

theorem ends_cancel (summary : RunSummary) (now : Timestamp) :
    Ends (fun row : DbRun Value => row.cancel summary.totalEvents summary.durationMs now)
      .cancelled summary now := by
  refine ⟨fun _ => rfl, ?_⟩
  intro row record h hrunning
  have hdigest := (h.running hrunning).2
  exact ⟨h.runId, h.specDigest, h.gitSha, h.agentName, h.tags, h.rubricPath, h.isPromotionGate,
    h.agentPhase, rfl, (fun hrunning => nomatch hrunning),
    fun _ => by simp [keptSummary, DbRun.cancel, hdigest]⟩

end State
end Aivcs
