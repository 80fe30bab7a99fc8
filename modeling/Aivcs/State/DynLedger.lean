import Aivcs.State.LedgerRows

/-!
# State.DynLedger — a run ledger behind the trait

Code that records runs holds an `Arc<dyn RunLedger>`: the fake, or the ledger on a database.  The database
is reached over a connection that may refuse a statement or lose its answer; `fates n` says what becomes of
the statements of the `n`-th operation from now.

`Holds` is what a ledger knows of one run, in the terms of the fake.  The lemmas say what an operation that
reports success has done to it; on the database none does so unless all its statements were answered
(`Proc.run_of_runFaulty_ok`).
-/

namespace Aivcs
namespace State

open Aivcs.Lib

variable {Value : Type}

/-- The event with another time. -/
def RunEvent.stamp (event : RunEvent Value) (time : Timestamp) : RunEvent Value :=
  { event with timestamp := time }

@[simp] theorem RunEvent.stamp_seq (event : RunEvent Value) (time : Timestamp) :
    (event.stamp time).seq = event.seq := rfl

@[simp] theorem RunEvent.stamp_kind (event : RunEvent Value) (time : Timestamp) :
    (event.stamp time).kind = event.kind := rfl

inductive DynRunLedger (Value : Type) where
  | memory (runs : MemoryRunLedger Value)
  | surreal (reports : Bool) (db : Db Value) (fates : Nat → Nat → Proc.Delivery)

namespace DynRunLedger

/-- The answer to a statement whose answer does not arrive. -/
def unavailable (op : DbOp Value) : op.Ans :=
  .error "connection lost"

/-- Run an operation on the database. -/
def send {α : Type} (reports : Bool) (db : Db Value) (fates : Nat → Nat → Proc.Delivery)
    (p : LedgerProc Value (Except StorageError α)) :
    Except StorageError α × DynRunLedger Value :=
  -- The next operation has the fates after these.
  let r := p.runFaulty (Db.exec reports) unavailable (fates 0) db
  (r.1, .surreal reports r.2 fun n => fates (n + 1))

def createRun (runId : RunId) (now : Timestamp) (specDigest : ContentDigest)
    (metadata : RunMetadata Value) :
    DynRunLedger Value → Except StorageError RunId × DynRunLedger Value
  | .memory runs => (runs.createRun runId now specDigest metadata).map id .memory
  | .surreal reports db fates =>
      send reports db fates (SurrealRunLedger.createRun runId now specDigest metadata)

def appendEvent (runId : RunId) (now : Timestamp) (event : RunEvent Value) :
    DynRunLedger Value → Except StorageError Unit × DynRunLedger Value
  | .memory runs => (runs.appendEvent runId event).map id .memory
  | .surreal reports db fates =>
      send reports db fates (SurrealRunLedger.appendEvent runId now event)

def completeRun (runId : RunId) (now : Timestamp) (summary : RunSummary) :
    DynRunLedger Value → Except StorageError Unit × DynRunLedger Value
  | .memory runs => (runs.completeRun runId now summary).map id .memory
  | .surreal reports db fates =>
      send reports db fates (SurrealRunLedger.completeRun runId now summary)

def failRun (runId : RunId) (now : Timestamp) (summary : RunSummary) :
    DynRunLedger Value → Except StorageError Unit × DynRunLedger Value
  | .memory runs => (runs.failRun runId now summary).map id .memory
  | .surreal reports db fates =>
      send reports db fates (SurrealRunLedger.failRun runId now summary)

/-- What `get_run` answers, when it is answered. -/
def getRun (runId : RunId) : DynRunLedger Value → Except StorageError (RunRecord Value)
  | .memory runs => runs.getRun runId
  | .surreal reports db _ => ((SurrealRunLedger.getRun runId).run (Db.exec reports) db).1

/-- What `get_events` answers, when it is answered. -/
def getEvents (runId : RunId) : DynRunLedger Value → Except StorageError (List (RunEvent Value))
  | .memory runs => runs.getEvents runId
  | .surreal reports db _ => ((SurrealRunLedger.getEvents runId).run (Db.exec reports) db).1

/-! ## What a ledger holds -/

/-- Neither a run nor an event has this identifier. -/
def Fresh (rid : RunId) : DynRunLedger Value → Prop
  | .memory runs => runs rid = none
  | .surreal _ db _ => db.rowsOf rid = [] ∧ db.eventsOf rid = []

def Holds (rid : RunId) (state : RunState Value) : DynRunLedger Value → Prop
  | .memory runs => runs rid = some state
  | .surreal _ db _ => Linked (some state) (db.rowsOf rid) (db.eventsOf rid)

theorem getEvents_of_holds {ledger : DynRunLedger Value} {rid : RunId} {state : RunState Value}
    (h : ledger.Holds rid state) :
    ledger.getEvents rid = .ok (state.events.insertionSort fun a b => a.seq ≤ b.seq) := by
  cases ledger with
  | memory runs =>
      have hruns : runs rid = some state := h
      simp only [getEvents, MemoryRunLedger.getEvents, hruns]
  | surreal reports db fates =>
      have hlinked : Linked (some state) (db.rowsOf rid) (db.eventsOf rid) := h
      generalize hrows : db.rowsOf rid = rows at hlinked
      generalize hevents : db.eventsOf rid = events at hlinked
      cases hlinked with
      | known hrow hconv hseq =>
          exact run_getEvents_known hrows (hevents ▸ hconv)

theorem getRun_of_holds {ledger : DynRunLedger Value} {rid : RunId} {state : RunState Value}
    (h : ledger.Holds rid state) :
    ∃ record, ledger.getRun rid = .ok record ∧ record.view = state.record.view := by
  -- The fake keeps the record as it is, the rows only what the view has of it.
  have hview : (ledger.getRun rid).map RunRecord.view = .ok state.record.view := by
    cases ledger with
    | memory runs =>
        have hruns : runs rid = some state := h
        simp only [getRun, MemoryRunLedger.getRun, hruns, Except.map]
    | surreal reports db fates =>
        have hlinked : Linked (some state) (db.rowsOf rid) (db.eventsOf rid) := h
        generalize hrows : db.rowsOf rid = rows at hlinked
        cases hlinked with
        | known hrow hconv hseq =>
            exact run_getRun_known hrows hrow
  cases hget : ledger.getRun rid with
  | error e =>
      rw [hget] at hview
      cases hview
  | ok record =>
      rw [hget] at hview
      exact ⟨record, rfl, Except.ok.inj hview⟩

/-- A running run, beside a fake that holds only it. -/
theorem Holds.active {reports : Bool} {db : Db Value} {fates : Nat → Nat → Proc.Delivery} {rid : RunId}
    {state : RunState Value} (h : (surreal reports db fates).Holds rid state)
    (hrunning : state.record.status = .running) :
    ∃ row, Active (Map.insert ∅ rid state) db rid state row := by
  have hlinked : Linked (some state) (db.rowsOf rid) (db.eventsOf rid) := h
  generalize hrows : db.rowsOf rid = rows at hlinked
  generalize hevents : db.eventsOf rid = events at hlinked
  cases hlinked with
  | @known _ row _ hrow hconv hseq =>
      exact ⟨row, Map.insert_self _ _ _, hrunning, hrows, hrow, hevents ▸ hconv, hseq⟩

/-! ## Operations that report success -/

section Success

variable {reports : Bool} {db : Db Value} {fates : Nat → Nat → Proc.Delivery} {rid : RunId}

theorem failsFast_query (op : DbOp Value) :
    (SurrealRunLedger.query op).FailsFast unavailable :=
  ⟨⟨_, rfl⟩, fun _ => trivial⟩

theorem failsFast_fetchRunning (rid : RunId) :
    (SurrealRunLedger.fetchRunning rid : LedgerProc Value _).FailsFast unavailable := by
  refine Proc.FailsFast.andThen (Proc.FailsFast.andThen (failsFast_query _) ?_) ?_
  · intro rows
    split <;> trivial
  · intro row
    split <;> trivial

theorem failsFast_updateRunning (rid : RunId) (f : DbRun Value → DbRun Value) :
    (SurrealRunLedger.updateRunning rid f).FailsFast unavailable :=
  (failsFast_fetchRunning rid).andThen fun _ => (failsFast_query _).andThen fun _ => trivial

/-- An operation that reports success had every statement answered. -/
theorem send_ok {α : Type} {p : LedgerProc Value (Except StorageError α)}
    (hp : p.FailsFast unavailable) {a b : α} {db' : Db Value} {ledger' : DynRunLedger Value}
    (hrun : p.run (Db.exec reports) db = (.ok b, db'))
    (h : send reports db fates p = (.ok a, ledger')) :
    a = b ∧ ledger' = .surreal reports db' fun n => fates (n + 1) := by
  rcases Prod.mk.inj h with ⟨hres, rfl⟩
  generalize hr : p.runFaulty (Db.exec reports) unavailable (fates 0) db = r at hres ⊢
  obtain ⟨r₁, r₂⟩ := r
  obtain rfl : r₁ = .ok a := hres
  have hsame := (Proc.run_of_runFaulty_ok _ hp hr).symm.trans hrun
  rcases Prod.mk.inj hsame with ⟨hval, hdb⟩
  exact ⟨Except.ok.inj hval, by rw [hdb]⟩

theorem createRun_ok {ledger ledger' : DynRunLedger Value} (hfresh : ledger.Fresh rid)
    {now : Timestamp} {d : ContentDigest} {m : RunMetadata Value} {rid' : RunId}
    (h : ledger.createRun rid now d m = (.ok rid', ledger')) :
    rid' = rid ∧ ledger'.Holds rid ⟨⟨rid, d, m, .running, none, now, none⟩, []⟩ := by
  cases ledger with
  | memory runs =>
      rcases Prod.mk.inj h with ⟨hrid, rfl⟩
      exact ⟨(Except.ok.inj hrid).symm, Map.insert_self _ _ _⟩
  | surreal reports db fates =>
      have hfast : (SurrealRunLedger.createRun rid now d m).FailsFast unavailable :=
        (failsFast_query _).andThen fun _ => trivial
      rcases send_ok hfast (run_createRun_new hfresh.1 now d m) h with ⟨rfl, rfl⟩
      exact ⟨rfl, linked_create hfresh.1 hfresh.2 now d m⟩

theorem appendEvent_ok {ledger ledger' : DynRunLedger Value} {state : RunState Value}
    (hholds : ledger.Holds rid state) (hrunning : state.record.status = .running)
    {now : Timestamp} {event : RunEvent Value} (hnew : ∀ e ∈ state.events, e.seq ≠ event.seq)
    (h : ledger.appendEvent rid now event = (.ok (), ledger')) :
    ∃ time, ledger'.Holds rid { state with events := state.events ++ [event.stamp time] } := by
  cases ledger with
  | memory runs =>
      have hruns : runs rid = some state := hholds
      simp only [appendEvent, MemoryRunLedger.appendEvent, MemoryRunLedger.updateRunning, hruns,
        hrunning, ne_eq, not_true_eq_false, if_false, Prod.map_apply] at h
      rcases Prod.mk.inj h with ⟨_, rfl⟩
      exact ⟨event.timestamp, Map.insert_self _ _ _⟩
  | surreal reports db fates =>
      obtain ⟨row, hactive⟩ := hholds.active hrunning
      -- The index on run and number would refuse a second event of this number.
      have hunused : ¬ ∃ e ∈ db.eventsOf rid, e.seq = event.seq := by
        rintro ⟨e, he, heq⟩
        have hmem : SurrealRunLedger.dbEventToEvent e ∈ state.events :=
          hactive.events ▸ List.mem_map_of_mem he
        exact hnew _ hmem heq
      have hfast : (SurrealRunLedger.appendEvent rid now event).FailsFast unavailable :=
        (failsFast_fetchRunning rid).andThen fun _ => (failsFast_query _).andThen fun _ => trivial
      let row' : DbEvent Value := DbEvent.new rid event.seq event.kind event.payload now
      have hid : row'.runId = rid := rfl
      have hrun : (SurrealRunLedger.appendEvent rid now event).run (Db.exec reports) db =
          (.ok (), { db with runEvents := db.runEvents ++ [row'] }) := by
        rw [run_appendEvent_active hactive, Db.exec_createEvent_new hunused]
        rfl
      rcases send_ok hfast hrun h with ⟨-, rfl⟩
      -- The database keeps the time of the insertion, the fake that of the event.
      exact ⟨now, hactive.linked_append hid hnew⟩

theorem totalEvents_keptSummary (status : RunStatus) (summary : RunSummary) :
    (keptSummary status summary).totalEvents = summary.totalEvents := by
  cases status <;> rfl

/-- Ending a run: what is kept of the summary may differ, the number of events does not. -/
theorem finish_ok {op : DynRunLedger Value → Except StorageError Unit × DynRunLedger Value}
    {status : RunStatus} {summary : RunSummary} {now : Timestamp} {f : DbRun Value → DbRun Value}
    (hends : Ends f status summary now)
    (hmemory : ∀ runs, op (.memory runs) =
      (runs.updateRunning rid (MemoryRunLedger.RunState.finish status summary now)).map id .memory)
    (hsurreal : ∀ reports db fates, op (.surreal reports db fates) =
      send reports db fates (SurrealRunLedger.updateRunning rid f))
    {ledger ledger' : DynRunLedger Value} {state : RunState Value}
    (hholds : ledger.Holds rid state) (hrunning : state.record.status = .running)
    (h : op ledger = (.ok (), ledger')) :
    ∃ kept : RunSummary, kept.totalEvents = summary.totalEvents ∧
      ledger'.Holds rid (MemoryRunLedger.RunState.finish status kept now state) := by
  cases ledger with
  | memory runs =>
      have hruns : runs rid = some state := hholds
      rw [hmemory] at h
      simp only [MemoryRunLedger.updateRunning, hruns, hrunning, ne_eq, not_true_eq_false, if_false,
        Prod.map_apply] at h
      rcases Prod.mk.inj h with ⟨_, rfl⟩
      exact ⟨summary, rfl, Map.insert_self _ _ _⟩
  | surreal reports db fates =>
      obtain ⟨row, hactive⟩ := hholds.active hrunning
      rw [hsurreal] at h
      rcases send_ok (failsFast_updateRunning rid f) (run_updateRunning_active hactive f) h
        with ⟨-, rfl⟩
      exact ⟨_, totalEvents_keptSummary status summary, hactive.linked_finish hends⟩

theorem completeRun_ok {ledger ledger' : DynRunLedger Value} {state : RunState Value}
    (hholds : ledger.Holds rid state) (hrunning : state.record.status = .running)
    {now : Timestamp} {summary : RunSummary}
    (h : ledger.completeRun rid now summary = (.ok (), ledger')) :
    ∃ kept : RunSummary, kept.totalEvents = summary.totalEvents ∧
      ledger'.Holds rid (MemoryRunLedger.RunState.finish .completed kept now state) :=
  finish_ok (ends_complete summary now) (fun _ => rfl) (fun _ _ _ => rfl) hholds hrunning h

theorem failRun_ok {ledger ledger' : DynRunLedger Value} {state : RunState Value}
    (hholds : ledger.Holds rid state) (hrunning : state.record.status = .running)
    {now : Timestamp} {summary : RunSummary}
    (h : ledger.failRun rid now summary = (.ok (), ledger')) :
    ∃ kept : RunSummary, kept.totalEvents = summary.totalEvents ∧
      ledger'.Holds rid (MemoryRunLedger.RunState.finish .failed kept now state) :=
  finish_ok (ends_fail summary now) (fun _ => rfl) (fun _ _ _ => rfl) hholds hrunning h

end Success

/-! ## Operations whatever their outcome -/

/-- What the ledger knows of a run is the same. -/
def SameAt (rid : RunId) : DynRunLedger Value → DynRunLedger Value → Prop
  | .memory runs, .memory runs' => runs' rid = runs rid
  | .surreal reports db _, .surreal reports' db' _ =>
      reports' = reports ∧ db'.rowsOf rid = db.rowsOf rid ∧ db'.eventsOf rid = db.eventsOf rid
  | _, _ => False

section SameAt

variable {rid : RunId} {l l' l'' : DynRunLedger Value}

theorem SameAt.refl (rid : RunId) (l : DynRunLedger Value) : SameAt rid l l := by
  cases l with
  | memory runs => exact rfl
  | surreal reports db fates => exact ⟨rfl, rfl, rfl⟩

theorem SameAt.trans (h : SameAt rid l l') (h' : SameAt rid l' l'') : SameAt rid l l'' := by
  cases l <;> cases l' <;> cases l'' <;> simp only [SameAt] at h h' ⊢
  · exact h'.trans h
  · exact ⟨h'.1.trans h.1, h'.2.1.trans h.2.1, h'.2.2.trans h.2.2⟩

theorem SameAt.holds_iff (h : SameAt rid l l') {state : RunState Value} :
    l'.Holds rid state ↔ l.Holds rid state := by
  cases l <;> cases l' <;> simp only [SameAt] at h
  · simp only [Holds, h]
  · simp only [Holds, h]

theorem SameAt.fresh_iff (h : SameAt rid l l') : l'.Fresh rid ↔ l.Fresh rid := by
  cases l <;> cases l' <;> simp only [SameAt] at h
  · simp only [Fresh, h]
  · simp only [Fresh, h]

theorem sameAt_surreal {reports : Bool} {db : Db Value} {fates fates' : Nat → Nat → Proc.Delivery} :
    SameAt rid (.surreal reports db fates) (.surreal reports db fates') :=
  ⟨rfl, rfl, rfl⟩

end SameAt

section Outcomes

variable {reports : Bool} {db : Db Value} {fates : Nat → Nat → Proc.Delivery} {rid : RunId}

variable (reports db fates) in
/-- An operation on the database leaves one of the databases of its undisturbed run. -/
theorem send_snd {α : Type} {p : LedgerProc Value (Except StorageError α)}
    (hp : p.FailsFast unavailable) :
    ∃ db' ∈ p.stores (Db.exec reports) db,
      (send reports db fates p).2 = .surreal reports db' fun n => fates (n + 1) :=
  ⟨_, Proc.runFaulty_mem_stores (Db.exec reports) hp (fates 0) db, rfl⟩

/-- One statement, and then nothing more. -/
theorem stores_query {op : DbOp Value} {α : Type} {b : α} {t : Db Value}
    (h : t ∈ ((SurrealRunLedger.query op).andThen fun _ => .ret (.ok b)).stores (Db.exec reports) db) :
    t = db ∨ t = (Db.exec reports op db).2 := by
  simp only [SurrealRunLedger.query, Proc.andThen_call, Proc.stores, List.mem_cons] at h
  refine h.imp_right ?_
  generalize (Db.exec reports op db).1 = answer
  cases answer with
  | error e =>
      intro h
      simpa [Proc.stores, Except.mapError] using h
  | ok a =>
      intro h
      simpa [Proc.stores, Except.mapError] using h

theorem reads_fetchRun : (SurrealRunLedger.fetchRun rid : LedgerProc Value _).Reads (Db.exec reports) := by
  refine Proc.Reads.andThen ⟨fun _ => rfl, fun _ => trivial⟩ ?_
  intro rows
  split <;> trivial

theorem reads_fetchRunning :
    (SurrealRunLedger.fetchRunning rid : LedgerProc Value _).Reads (Db.exec reports) := by
  refine reads_fetchRun.andThen ?_
  intro row
  split <;> trivial

/-- Operations that look a running run up and then send one statement. -/
theorem stores_guarded (op : DbRun Value → DbOp Value) {t : Db Value} {row : DbRun Value}
    (hrow : (SurrealRunLedger.fetchRunning rid).run (Db.exec reports) db = (.ok row, db))
    (h : t ∈ ((SurrealRunLedger.fetchRunning rid).andThen fun row =>
      (SurrealRunLedger.query (op row)).andThen fun _ => .ret (.ok ())).stores (Db.exec reports) db) :
    t = db ∨ t = (Db.exec reports (op row) db).2 := by
  rcases Proc.mem_stores_andThen (Db.exec reports) hrow h with h | h
  · exact Or.inl (reads_fetchRunning.stores_eq h)
  · exact stores_query h

/-- A run that is being created is there afterwards or it is not; the others are as they were. -/
theorem createRun_outcome {ledger : DynRunLedger Value} (hfresh : ledger.Fresh rid) (now : Timestamp)
    (d : ContentDigest) (m : RunMetadata Value) :
    ((ledger.createRun rid now d m).2.Fresh rid ∨
      (ledger.createRun rid now d m).2.Holds rid ⟨⟨rid, d, m, .running, none, now, none⟩, []⟩) ∧
    ∀ rid', rid' ≠ rid → SameAt rid' ledger (ledger.createRun rid now d m).2 := by
  cases ledger with
  | memory runs =>
      exact ⟨Or.inr (Map.insert_self _ _ _), fun rid' hne => Map.insert_of_ne _ _ hne⟩
  | surreal reports db fates =>
      have hfast : (SurrealRunLedger.createRun rid now d m).FailsFast unavailable :=
        (failsFast_query _).andThen fun _ => trivial
      obtain ⟨db', hdb', hsend⟩ := send_snd reports db fates hfast
      have hexec : Db.exec reports (.createRun (newRow rid now d m)) db =
          (.ok (), { db with runs := db.runs ++ [newRow rid now d m] }) := Db.exec_createRun_new hfresh.1
      change (Fresh rid (send _ _ _ _).2 ∨ Holds rid _ (send _ _ _ _).2) ∧
        ∀ rid', rid' ≠ rid → SameAt rid' _ (send _ _ _ _).2
      rw [hsend]
      rcases stores_query hdb' with rfl | hdb'
      · exact ⟨Or.inl hfresh, fun rid' _ => sameAt_surreal⟩
      · change db' = (Db.exec reports (.createRun (newRow rid now d m)) db).2 at hdb'
        rw [hexec] at hdb'
        subst hdb'
        refine ⟨Or.inr (linked_create hfresh.1 hfresh.2 now d m), ?_⟩
        intro rid' hne
        have hid : (newRow rid now d m).runId ≠ rid' := fun heq => hne heq.symm
        exact ⟨rfl, (Db.rowsOf_concat _).trans (if_neg hid), rfl⟩

/-- The time an event is kept with: the fake keeps its own, the database takes that of the insertion. -/
def timeOf (ledger : DynRunLedger Value) (now : Timestamp) (event : RunEvent Value) : Timestamp :=
  match ledger with
  | .memory _ => event.timestamp
  | .surreal _ _ _ => now

theorem timeOf_createRun (ledger : DynRunLedger Value) (now : Timestamp) (d : ContentDigest)
    (m : RunMetadata Value) : (ledger.createRun rid now d m).2.timeOf = ledger.timeOf := by
  cases ledger <;> rfl

theorem timeOf_appendEvent (ledger : DynRunLedger Value) (now : Timestamp) (event : RunEvent Value) :
    (ledger.appendEvent rid now event).2.timeOf = ledger.timeOf := by
  cases ledger <;> rfl

theorem SameAt.timeOf_eq {l l' : DynRunLedger Value} (h : SameAt rid l l') : l'.timeOf = l.timeOf := by
  cases l <;> cases l' <;> simp only [SameAt] at h
  · rfl
  · rfl

/-- A ledger holds one list of events for a run. -/
theorem Holds.events_eq {ledger : DynRunLedger Value} {state state' : RunState Value}
    (h : ledger.Holds rid state) (h' : ledger.Holds rid state') : state.events = state'.events := by
  cases ledger with
  | memory runs =>
      have hsame : some state = some state' := Eq.trans (Eq.symm h) h'
      rw [Option.some.inj hsame]
  | surreal reports db fates =>
      have hlinked : Linked (some state) (db.rowsOf rid) (db.eventsOf rid) := h
      have hlinked' : Linked (some state') (db.rowsOf rid) (db.eventsOf rid) := h'
      generalize db.rowsOf rid = rows at hlinked hlinked'
      generalize db.eventsOf rid = events at hlinked hlinked'
      cases hlinked with
      | known _ hevents _ =>
          cases hlinked' with
          | known _ hevents' _ => exact hevents.symm.trans hevents'

/-- A ledger holds one view of a run. -/
theorem Holds.view_eq {ledger : DynRunLedger Value} {state state' : RunState Value}
    (h : ledger.Holds rid state) (h' : ledger.Holds rid state') :
    state.record.view = state'.record.view := by
  obtain ⟨record, hget, hview⟩ := getRun_of_holds h
  obtain ⟨record', hget', hview'⟩ := getRun_of_holds h'
  obtain rfl : record = record' := by
    rw [hget] at hget'
    exact Except.ok.inj hget'
  exact hview.symm.trans hview'

theorem Holds.not_fresh {ledger : DynRunLedger Value} {state : RunState Value}
    (h : ledger.Holds rid state) : ¬ ledger.Fresh rid := by
  intro hfresh
  cases ledger with
  | memory runs =>
      have hnone : none = some state := Eq.trans (Eq.symm hfresh) h
      cases hnone
  | surreal reports db fates =>
      have hlinked : Linked (some state) (db.rowsOf rid) (db.eventsOf rid) := h
      rw [hfresh.1] at hlinked
      cases hlinked

/-- An event is appended or it is not, and nothing else happens. -/
theorem appendEvent_outcome {ledger : DynRunLedger Value} {state : RunState Value}
    (hholds : ledger.Holds rid state) (hrunning : state.record.status = .running) (now : Timestamp)
    {event : RunEvent Value} (hnew : ∀ e ∈ state.events, e.seq ≠ event.seq) :
    ((ledger.appendEvent rid now event).2.Holds rid state ∨
      (ledger.appendEvent rid now event).2.Holds rid
        { state with events := state.events ++ [event.stamp (ledger.timeOf now event)] }) ∧
    ∀ rid', rid' ≠ rid → SameAt rid' ledger (ledger.appendEvent rid now event).2 := by
  cases ledger with
  | memory runs =>
      have hruns : runs rid = some state := hholds
      simp only [appendEvent, MemoryRunLedger.appendEvent, MemoryRunLedger.updateRunning, hruns,
        hrunning, ne_eq, not_true_eq_false, if_false, Prod.map_apply]
      exact ⟨Or.inr (Map.insert_self _ _ _),
        fun rid' hne => Map.insert_of_ne _ _ hne⟩
  | surreal reports db fates =>
      obtain ⟨row, hactive⟩ := hholds.active hrunning
      have hunused : ¬ ∃ e ∈ db.eventsOf rid, e.seq = event.seq := by
        rintro ⟨e, he, heq⟩
        have hmem : SurrealRunLedger.dbEventToEvent e ∈ state.events :=
          hactive.events ▸ List.mem_map_of_mem he
        exact hnew _ hmem heq
      have hfast : (SurrealRunLedger.appendEvent rid now event).FailsFast unavailable :=
        (failsFast_fetchRunning rid).andThen fun _ => (failsFast_query _).andThen fun _ => trivial
      obtain ⟨db', hdb', hsend⟩ := send_snd reports db fates hfast
      let row' : DbEvent Value := DbEvent.new rid event.seq event.kind event.payload now
      have hid : row'.runId = rid := rfl
      change (Holds rid _ (send _ _ _ _).2 ∨ Holds rid _ (send _ _ _ _).2) ∧
        ∀ rid', rid' ≠ rid → SameAt rid' _ (send _ _ _ _).2
      rw [hsend]
      rcases stores_guarded (fun _ => .createEvent row')
        (run_fetchRunning_ok hactive.rows hactive.status) hdb' with rfl | hdb'
      · exact ⟨Or.inl hholds, fun rid' _ => sameAt_surreal⟩
      · rw [Db.exec_createEvent_new hunused] at hdb'
        subst hdb'
        have hlinked := hactive.linked_append hid hnew
        refine ⟨Or.inr hlinked, ?_⟩
        intro rid' hne
        exact ⟨rfl, rfl, (Db.eventsOf_concat _).trans (if_neg fun heq => hne heq.symm)⟩

/-- The time an event that is reported to be appended has been given. -/
theorem appendEvent_stamped {ledger ledger' : DynRunLedger Value} {state : RunState Value}
    (hholds : ledger.Holds rid state) (hrunning : state.record.status = .running) {now : Timestamp}
    {event : RunEvent Value} (hnew : ∀ e ∈ state.events, e.seq ≠ event.seq)
    (h : ledger.appendEvent rid now event = (.ok (), ledger')) :
    ledger'.Holds rid
      { state with events := state.events ++ [event.stamp (ledger.timeOf now event)] } := by
  have houtcome := (appendEvent_outcome hholds hrunning now hnew).1
  rw [h] at houtcome
  refine houtcome.resolve_left ?_
  -- The event is there with some time, so the run is not as it was.
  intro hold
  obtain ⟨time, hnew'⟩ := appendEvent_ok hholds hrunning hnew h
  have hlength := congrArg List.length (hold.events_eq hnew')
  simp at hlength

/-- A run that is being ended has ended afterwards or it is running. -/
theorem completeRun_outcome {ledger : DynRunLedger Value} {state : RunState Value}
    (hholds : ledger.Holds rid state) (hrunning : state.record.status = .running) (now : Timestamp)
    (summary : RunSummary) :
    ((ledger.completeRun rid now summary).2.Holds rid state ∨
      ∃ kept : RunSummary, kept.totalEvents = summary.totalEvents ∧
        (ledger.completeRun rid now summary).2.Holds rid
          (MemoryRunLedger.RunState.finish .completed kept now state)) ∧
    ∀ rid', rid' ≠ rid → SameAt rid' ledger (ledger.completeRun rid now summary).2 := by
  cases ledger with
  | memory runs =>
      have hruns : runs rid = some state := hholds
      simp only [completeRun, MemoryRunLedger.completeRun, MemoryRunLedger.updateRunning, hruns,
        hrunning, ne_eq, not_true_eq_false, if_false, Prod.map_apply]
      exact ⟨Or.inr ⟨summary, rfl, Map.insert_self _ _ _⟩, fun rid' hne => Map.insert_of_ne _ _ hne⟩
  | surreal reports db fates =>
      obtain ⟨row, hactive⟩ := hholds.active hrunning
      have hends := @ends_complete Value summary now
      have hfast : Proc.FailsFast unavailable
          (SurrealRunLedger.completeRun rid now summary : LedgerProc Value _) :=
        failsFast_updateRunning rid fun row : DbRun Value => row.complete summary.totalEvents
          (summary.finalStateDigest.map ContentDigest.str) summary.durationMs now
      obtain ⟨db', hdb', hsend⟩ := send_snd reports db fates hfast
      change (Holds rid _ (send _ _ _ _).2 ∨ ∃ kept : RunSummary, _ ∧ Holds rid _ (send _ _ _ _).2) ∧
        ∀ rid', rid' ≠ rid → SameAt rid' _ (send _ _ _ _).2
      rw [hsend]
      rcases stores_guarded (fun row => .updateRun rid (row.complete summary.totalEvents
          (summary.finalStateDigest.map ContentDigest.str) summary.durationMs now))
        (run_fetchRunning_ok hactive.rows hactive.status) hdb' with rfl | rfl
      · exact ⟨Or.inl hholds, fun rid' _ => sameAt_surreal⟩
      · refine ⟨Or.inr ⟨_, totalEvents_keptSummary .completed summary, hactive.linked_finish hends⟩, ?_⟩
        intro rid' hne
        exact ⟨rfl, (Db.rowsOf_merge ((hends.runId row).trans hactive.row_runId) rid').trans
          (if_neg hne), rfl⟩

/-! ## Reading, answered or not -/

/-- `get_run` over the connection. -/
def askRun (runId : RunId) :
    DynRunLedger Value → Except StorageError (RunRecord Value) × DynRunLedger Value
  | .memory runs => (runs.getRun runId, .memory runs)
  | .surreal reports db fates => send reports db fates (SurrealRunLedger.getRun runId)

/-- `get_events` over the connection. -/
def askEvents (runId : RunId) :
    DynRunLedger Value → Except StorageError (List (RunEvent Value)) × DynRunLedger Value
  | .memory runs => (runs.getEvents runId, .memory runs)
  | .surreal reports db fates => send reports db fates (SurrealRunLedger.getEvents runId)

theorem failsFast_fetchRun (rid : RunId) :
    (SurrealRunLedger.fetchRun rid : LedgerProc Value _).FailsFast unavailable := by
  refine Proc.FailsFast.andThen (failsFast_query _) ?_
  intro rows
  split <;> trivial

/-- A question to the database changes nothing, and an answer is that of a database that answers. -/
theorem send_reads {α : Type} {p : LedgerProc Value (Except StorageError α)}
    (hfast : p.FailsFast unavailable) (hreads : p.Reads (Db.exec reports)) :
    (∀ rid, SameAt rid (.surreal reports db fates) (send reports db fates p).2) ∧
      ∀ a, (send reports db fates p).1 = .ok a → (p.run (Db.exec reports) db).1 = .ok a := by
  constructor
  · obtain ⟨db', hdb', hsend⟩ := send_snd reports db fates hfast
    intro rid
    rw [hsend, hreads.stores_eq hdb']
    exact sameAt_surreal
  · intro a ha
    generalize hr : p.runFaulty (Db.exec reports) unavailable (fates 0) db = r
    have hres : r.1 = .ok a := by
      rw [← hr]
      exact ha
    obtain ⟨r₁, r₂⟩ := r
    obtain rfl : r₁ = .ok a := hres
    rw [Proc.run_of_runFaulty_ok _ hfast hr]

theorem askRun_spec (ledger : DynRunLedger Value) (rid : RunId) :
    (∀ rid', SameAt rid' ledger (ledger.askRun rid).2) ∧
      ∀ record, (ledger.askRun rid).1 = .ok record → ledger.getRun rid = .ok record := by
  cases ledger with
  | memory runs =>
      exact ⟨fun _ => rfl, fun _ h => h⟩
  | surreal reports db fates =>
      exact send_reads ((failsFast_fetchRun rid).andThen fun _ => trivial)
        (reads_fetchRun.andThen fun _ => trivial)

theorem askEvents_spec (ledger : DynRunLedger Value) (rid : RunId) :
    (∀ rid', SameAt rid' ledger (ledger.askEvents rid).2) ∧
      ∀ events, (ledger.askEvents rid).1 = .ok events → ledger.getEvents rid = .ok events := by
  cases ledger with
  | memory runs =>
      exact ⟨fun _ => rfl, fun _ h => h⟩
  | surreal reports db fates =>
      refine send_reads ((failsFast_fetchRun rid).andThen fun _ => ?_)
        (reads_fetchRun.andThen fun _ => ?_)
      · exact (failsFast_query _).andThen fun _ => trivial
      · exact Proc.Reads.andThen ⟨fun _ => rfl, fun _ => trivial⟩ fun _ => trivial

end Outcomes

end DynRunLedger

end State
end Aivcs
