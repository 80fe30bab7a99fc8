import Aivcs.Lib.Log
import Aivcs.State.LedgerRows

/-!
# State.LedgerConcurrency — calls on one run at the same time

Each operation on a running run sends two statements: it fetches the row, and if that says `RUNNING`
it writes.  Between the two another call may have ended the run, and the write is made all the same.
In every order of the statements in which no call ends the run between the fetch and the write of another,
at most one call ends it and an ended run never changes again (`run_ends_at_most_once`): the row a call
fetched says `RUNNING`, and still does when it writes.  Two calls that both fetch before either writes both
end it (`interleaved_calls_end_twice`).
-/

namespace Aivcs
namespace State

open Aivcs.Lib
open Aivcs.Lib.Interleaving

variable {Value : Type}

/-- A call on a running run. -/
inductive RunCall (Value : Type) where
  | appendEvent (now : Timestamp) (event : RunEvent Value)
  | completeRun (now : Timestamp) (summary : RunSummary)
  | failRun (now : Timestamp) (summary : RunSummary)
  | cancelRun (now : Timestamp) (summary : RunSummary)

namespace RunCall

def program (rid : RunId) : RunCall Value → LedgerProc Value (Except StorageError Unit)
  | .appendEvent now event => SurrealRunLedger.appendEvent rid now event
  | .completeRun now summary => SurrealRunLedger.completeRun rid now summary
  | .failRun now summary => SurrealRunLedger.failRun rid now summary
  | .cancelRun now summary => SurrealRunLedger.cancelRun rid now summary

/-- The call ends the run. -/
def ends : RunCall Value → Bool
  | .appendEvent _ _ => false
  | _ => true

/-- The statement a call sends after it has fetched `row`. -/
def write (rid : RunId) (row : DbRun Value) : RunCall Value → DbOp Value
  | .appendEvent now event =>
      .createEvent (DbEvent.new rid event.seq event.kind event.payload now)
  | .completeRun now summary => .updateRun rid (row.complete summary.totalEvents
      (summary.finalStateDigest.map ContentDigest.str) summary.durationMs now)
  | .failRun now summary => .updateRun rid (row.fail summary.totalEvents summary.durationMs now)
  | .cancelRun now summary => .updateRun rid (row.cancel summary.totalEvents summary.durationMs now)

/-- A call that has fetched `row` and is about to write. -/
def pending (rid : RunId) (row : DbRun Value) (call : RunCall Value) :
    LedgerProc Value (Except StorageError Unit) :=
  (SurrealRunLedger.query (call.write rid row)).andThen fun _ => .ret (.ok ())

/-- What a call goes on with after it has fetched `rows`. -/
def fetched (rid : RunId) (rows : List (DbRun Value)) (call : RunCall Value) :
    LedgerProc Value (Except StorageError Unit) :=
  match rows.head? with
  | none => .ret (.error (.runNotFound rid))
  | some row =>
      if row.status ≠ "RUNNING" then .ret (.error (.invalidRunState rid row.status "RUNNING"))
      else call.pending rid row

end RunCall

/-- The fetched row says `RUNNING`. -/
def Running (db : Db Value) (rid : RunId) : Prop :=
  (db.rowsOf rid).head?.map DbRun.status = some "RUNNING"

instance (db : Db Value) (rid : RunId) : Decidable (Running db rid) :=
  inferInstanceAs (Decidable (_ = _))

/-- The statement is an `UPDATE` of the run. -/
def UpdatesRun (rid : RunId) : DbOp Value → Prop
  | .updateRun target _ => target = rid
  | _ => False

/-- The first statement writes to a run, of which the other one is an `UPDATE`. -/
def OvertakenBy : DbOp Value → DbOp Value → Prop
  | .createEvent row, other => UpdatesRun row.runId other
  | .updateRun rid _, other => UpdatesRun rid other
  | _, _ => False

instance (rid : RunId) (op : DbOp Value) : Decidable (UpdatesRun rid op) :=
  match op with
  | .updateRun target _ => inferInstanceAs (Decidable (target = rid))
  | .selectRun _ | .createRun _ | .createEvent _ | .selectEvents _ => inferInstanceAs (Decidable False)

instance (op other : DbOp Value) : Decidable (OvertakenBy op other) :=
  match op with
  | .createEvent row => inferInstanceAs (Decidable (UpdatesRun row.runId other))
  | .updateRun rid _ => inferInstanceAs (Decidable (UpdatesRun rid other))
  | .selectRun _ | .createRun _ | .selectEvents _ => inferInstanceAs (Decidable False)

abbrev LedgerConfig (Value ι : Type) : Type :=
  Config (DbOp Value) DbOp.Ans (Except StorageError Unit) (Db Value) ι

/-- The calls, all on one run, none of which has sent anything. -/
def callers {ι : Type} (rid : RunId) (calls : ι → RunCall Value) (db : Db Value) :
    LedgerConfig Value ι :=
  ⟨db, fun i => (calls i).program rid⟩

/-! ## The statements of a call -/

/-- How far a call is; `running` is what it may rely on when it is about to write. -/
inductive Phase (rid : RunId) (call : RunCall Value) (running : Prop) :
    LedgerProc Value (Except StorageError Unit) → Prop
  | start : Phase rid call running (call.program rid)
  | pending (row : DbRun Value) (hid : row.runId = rid) (hrunning : running) :
      Phase rid call running (call.pending rid row)
  | done (r : Except StorageError Unit) : Phase rid call running (.ret r)

section Call

variable {reports : Bool} {rid : RunId} {call : RunCall Value} {db : Db Value}

theorem program_eq_fetchRunning :
    call.program rid = (SurrealRunLedger.fetchRunning rid).andThen (call.pending rid) := by
  cases call <;> rfl

/-- The first statement of every call is the fetch. -/
theorem program_eq : ∃ next, call.program rid = .call (.selectRun rid) next ∧
    ∀ rows, next (.ok rows) = call.fetched rid rows := by
  refine ⟨fun r => (((Proc.ret (r.mapError StorageError.backend)).andThen _).andThen _).andThen _,
    program_eq_fetchRunning, ?_⟩
  intro rows
  simp only [Except.mapError, Proc.andThen_ret_ok, RunCall.fetched]
  cases List.head? rows with
  | none =>
      rfl
  | some row =>
      simp only [Proc.andThen_ret_ok]
      split <;> rfl

/-- The second one is the write, and its answer is the call's. -/
theorem pending_eq (row : DbRun Value) : ∃ next, call.pending rid row = .call (call.write rid row) next ∧
    ∀ r, ∃ a, next r = .ret a := by
  refine ⟨_, rfl, ?_⟩
  intro r
  cases r with
  | error detail =>
      exact ⟨_, rfl⟩
  | ok a =>
      exact ⟨_, rfl⟩

/-- A call that has only fetched has not succeeded. -/
theorem fetched_ne_ok (rows : List (DbRun Value)) : call.fetched rid rows ≠ .ret (.ok ()) := by
  unfold RunCall.fetched
  obtain hrows | ⟨row, hrows⟩ := Option.eq_none_or_eq_some rows.head?
  · simp [hrows]
  · obtain ⟨next, hpending, -⟩ := @pending_eq _ rid call row
    by_cases hstatus : row.status = "RUNNING" <;> simp [hrows, hstatus, hpending]

theorem Phase.mono {P Q : Prop} {p : LedgerProc Value (Except StorageError Unit)} (hPQ : P → Q)
    (h : Phase rid call P p) : Phase rid call Q p := by
  cases h with
  | start => exact .start
  | pending row hid hrunning => exact .pending row hid (hPQ hrunning)
  | done r => exact .done r

/-- A call that goes on after its fetch has seen the run running. -/
theorem phase_fetched : Phase rid call (Running db rid) (call.fetched rid (db.rowsOf rid)) := by
  unfold RunCall.fetched
  split
  · exact .done _
  · next row hrow =>
    split
    · exact .done _
    · next hstatus =>
      have hmem : row ∈ db.rowsOf rid := List.mem_of_mem_head? hrow
      have hrunning : Running db rid := by
        rw [Running, hrow, Option.map_some, not_not.1 hstatus]
      exact .pending row (by simpa using (List.mem_filter.mp hmem).2) hrunning

/-- What overtakes the write of a call is an `UPDATE` of the run. -/
theorem overtakenBy_write (row : DbRun Value) : OvertakenBy (call.write rid row) = UpdatesRun rid := by
  funext other
  cases call <;> rfl

/-- Only an `UPDATE` of the run ends it. -/
theorem running_write {row : DbRun Value} (hnot : ¬ UpdatesRun rid (call.write rid row))
    (h : Running db rid) : Running (Db.exec reports (call.write rid row) db).2 rid := by
  cases call with
  | appendEvent now event =>
      rw [RunCall.write, Db.exec]
      split
      · exact h
      · exact h
  | completeRun now summary => exact absurd rfl hnot
  | failRun now summary => exact absurd rfl hnot
  | cancelRun now summary => exact absurd rfl hnot

/-- A call that ends the run leaves it not running. -/
theorem not_running_write {row : DbRun Value} (hid : row.runId = rid) (hends : call.ends = true) :
    ¬ Running (Db.exec reports (call.write rid row) db).2 rid := by
  have hmerge : ∀ row' : DbRun Value, row'.runId = rid → row'.status ≠ "RUNNING" →
      ¬ Running { db with runs := Db.merge rid row' db.runs } rid := by
    intro row' hid' hstatus hrunning
    unfold Running at hrunning
    rw [Db.rowsOf_merge hid', if_pos rfl] at hrunning
    cases hrows : db.rowsOf rid with
    | nil =>
        simp [hrows] at hrunning
    | cons r rows =>
        simp [hrows, hstatus] at hrunning
  cases call with
  | appendEvent now event =>
      cases hends
  | completeRun now summary =>
      exact hmerge _ hid (by simp [DbRun.complete])
  | failRun now summary =>
      exact hmerge _ hid (by simp [DbRun.fail])
  | cancelRun now summary =>
      exact hmerge _ hid (by simp [DbRun.cancel])

end Call

/-! ## Every interleaving -/

section Interleave

variable {ι : Type} [DecidableEq ι] {reports : Bool} {rid : RunId} {calls : ι → RunCall Value}
  {c c' : LedgerConfig Value ι}

/-- A call has succeeded in ending the run. -/
def HasEnded (calls : ι → RunCall Value) (c : LedgerConfig Value ι) (i : ι) : Prop :=
  (calls i).ends = true ∧ c.procs i = .ret (.ok ())

/-- What holds as long as no call has been overtaken: a call about to write still finds the run as it has
fetched it. -/
structure EndsOnce (rid : RunId) (calls : ι → RunCall Value)
    (log : List (Entry (DbOp Value) DbOp.Ans ι)) (c : LedgerConfig Value ι) : Prop where
  phase : ∀ i, Phase rid (calls i) (Kept (UpdatesRun rid) (Running · rid) log i c.store) (c.procs i)
  not_running : ∀ i, HasEnded calls c i → ¬ Running c.store rid
  unique : ∀ i j, HasEnded calls c i → HasEnded calls c j → i = j

theorem endsOnce_callers (db : Db Value) : EndsOnce rid calls [] (callers rid calls db) := by
  have hne : ∀ i, ¬ HasEnded calls (callers rid calls db) i := by
    intro i hi
    obtain ⟨next, hprogram, -⟩ := @program_eq _ rid (calls i)
    have hret : Proc.call _ next = .ret (.ok ()) := hprogram.symm.trans hi.2
    cases hret
  refine ⟨fun i => .start, ?_, ?_⟩
  · intro i hi
    exact absurd hi (hne i)
  · intro i j hi
    exact absurd hi (hne i)

variable {log : List (Entry (DbOp Value) DbOp.Ans ι)} {i : ι} {op : DbOp Value}
  {next : DbOp.Ans op → LedgerProc Value (Except StorageError Unit)}

/-- What one statement does: a fetch changes nothing in the database and ends no run; a write that has not
been overtaken is made while the run is running. -/
theorem EndsOnce.call_cases (h : EndsOnce rid calls log c) (hcall : c.procs i = .call op next)
    (hlog : Undisturbed OvertakenBy (log ++ [⟨i, op, (Db.exec reports op c.store).1⟩])) :
    c.fire (Db.exec reports) i =
      ⟨c.store, Function.update c.procs i ((calls i).fetched rid (c.store.rowsOf rid))⟩ ∨
    ∃ row r, op = (calls i).write rid row ∧ row.runId = rid ∧ Running c.store rid ∧
      c.fire (Db.exec reports) i = ⟨(Db.exec reports ((calls i).write rid row) c.store).2,
        Function.update c.procs i (.ret r)⟩ := by
  have hi := h.phase i
  generalize hproc : c.procs i = p at hi
  cases hi with
  | start =>
      -- The call fetches, which changes nothing.
      obtain ⟨next', hprogram, hnext⟩ := @program_eq _ rid (calls i)
      left
      rw [Config.fire_of_call (hproc.trans hprogram)]
      exact congrArg (Config.mk c.store) (congrArg _ (hnext (c.store.rowsOf rid)))
  | pending row hid hkept =>
      obtain ⟨next', hpending, hnext⟩ := @pending_eq _ rid (calls i) row
      obtain ⟨a, ha⟩ := hnext (Db.exec reports ((calls i).write rid row) c.store).1
      have hop : op = (calls i).write rid row := by
        have hsame := hcall.symm.trans (hproc.trans hpending)
        injection hsame
      -- It found the run running, and nobody has ended the run since.
      have hrunning : Running c.store rid := by
        subst hop
        rw [← overtakenBy_write row] at hkept
        exact hlog.holds hkept
      refine Or.inr ⟨row, a, hop, hid, hrunning, ?_⟩
      rw [Config.fire_of_call (hproc.trans hpending), ha]
  | done r =>
      rw [hproc] at hcall
      cases hcall

theorem EndsOnce.call (h : EndsOnce rid calls log c) (hcall : c.procs i = .call op next)
    (hlog : Undisturbed OvertakenBy (log ++ [⟨i, op, (Db.exec reports op c.store).1⟩])) :
    EndsOnce rid calls (log ++ [⟨i, op, (Db.exec reports op c.store).1⟩])
      (c.fire (Db.exec reports) i) := by
  obtain hfire | ⟨row, r, hop, hid, hrunning, hfire⟩ := h.call_cases hcall hlog
  · have hsame : ∀ j, HasEnded calls ⟨c.store, Function.update c.procs i
        ((calls i).fetched rid (c.store.rowsOf rid))⟩ j → HasEnded calls c j := by
      rintro j ⟨hends, hret⟩
      by_cases hj : j = i
      · subst hj
        exact absurd ((Function.update_self _ _ _).symm.trans hret) (fetched_ne_ok _)
      · exact ⟨hends, (Function.update_of_ne hj _ _).symm.trans hret⟩
    rw [hfire]
    refine ⟨?_, ?_, ?_⟩
    · intro j
      by_cases hj : j = i
      · subst hj
        have hphase := @phase_fetched _ rid (calls j) c.store
        have hkept : Running c.store rid → Kept (UpdatesRun rid) (Running · rid)
            (log ++ [⟨j, op, (Db.exec reports op c.store).1⟩]) j c.store := fun hrunning _ => hrunning
        simpa using hphase.mono hkept
      · have hphase := (h.phase j).mono fun hkept =>
          hkept.other (e := ⟨i, op, (Db.exec reports op c.store).1⟩) (Ne.symm hj) fun _ hrunning => hrunning
        simpa [Function.update_of_ne hj] using hphase
    · intro j hj
      exact h.not_running j (hsame j hj)
    · intro j k hj hk
      exact h.unique j k (hsame j hj) (hsame k hk)
  · -- The run was running, so no other call has ended it.
    have hself : ∀ j, HasEnded calls ⟨(Db.exec reports ((calls i).write rid row) c.store).2,
        Function.update c.procs i (.ret r)⟩ j → j = i := by
      rintro j ⟨hends, hret⟩
      by_contra hj
      have hret' : c.procs j = .ret (.ok ()) := (Function.update_of_ne hj _ _).symm.trans hret
      exact h.not_running j ⟨hends, hret'⟩ hrunning
    have hkeeps : ¬ UpdatesRun rid op → Running c.store rid →
        Running (Db.exec reports ((calls i).write rid row) c.store).2 rid :=
      fun hnot => running_write (hop ▸ hnot)
    rw [hfire]
    refine ⟨?_, ?_, ?_⟩
    · intro j
      by_cases hj : j = i
      · subst hj
        simpa using Phase.done r
      · have hphase := (h.phase j).mono fun hkept =>
          hkept.other (e := ⟨i, op, (Db.exec reports op c.store).1⟩) (Ne.symm hj) hkeeps
        simpa [Function.update_of_ne hj] using hphase
    · intro j hj
      obtain rfl := hself j hj
      exact not_running_write hid hj.1
    · intro j k hj hk
      exact (hself j hj).trans (hself k hk).symm

theorem EndsOnce.of_logged {db : Db Value}
    (h : Logged (Db.exec reports) (callers rid calls db) log c) (hlog : Undisturbed OvertakenBy log) :
    EndsOnce rid calls log c := by
  induction h with
  | start =>
      exact endsOnce_callers db
  | call _ i op next hcall ih =>
      exact (ih hlog.left).call hcall hlog

/-- A run that is not running keeps its rows. -/
theorem EndsOnce.store_eq (h : EndsOnce rid calls log c) (hnot : ¬ Running c.store rid)
    {more : List (Entry (DbOp Value) DbOp.Ans ι)} (hmore : Logged (Db.exec reports) c more c')
    (hlog : Undisturbed OvertakenBy (log ++ more)) :
    c'.store = c.store ∧ EndsOnce rid calls (log ++ more) c' := by
  induction hmore with
  | start =>
      rw [List.append_nil]
      exact ⟨rfl, h⟩
  | call _ i op next hcall ih =>
      rw [← List.append_assoc] at hlog ⊢
      obtain ⟨hsame, hmid⟩ := ih hlog.left
      refine ⟨?_, hmid.call hcall hlog⟩
      obtain hfire | ⟨row, r, -, -, hrunning, hfire⟩ := hmid.call_cases hcall hlog
      · rw [hfire]
        exact hsame
      · rw [hsame] at hrunning
        exact absurd hrunning hnot

/-- In every interleaving of calls on one run in which no call updates the run between the fetch and the
write of another, at most one call ends the run, and from the moment it is not running neither its row nor
its events change. -/
theorem run_ends_at_most_once (reports : Bool) (rid : RunId) (calls : ι → RunCall Value)
    (db : Db Value) (log : List (Entry (DbOp Value) DbOp.Ans ι)) (c : LedgerConfig Value ι)
    (hrun : Logged (Db.exec reports) (callers rid calls db) log c)
    (hlog : Undisturbed OvertakenBy log) :
    (∀ i j, HasEnded calls c i → HasEnded calls c j → i = j) ∧
    (¬ Running c.store rid → ∀ more c', Logged (Db.exec reports) c more c' →
      Undisturbed OvertakenBy (log ++ more) →
      c'.store.rowsOf rid = c.store.rowsOf rid ∧ c'.store.eventsOf rid = c.store.eventsOf rid) := by
  have hinv : EndsOnce rid calls log c := .of_logged hrun hlog
  refine ⟨hinv.unique, ?_⟩
  intro hnot more c' hmore hboth
  rw [(hinv.store_eq hnot hmore hboth).1]
  exact ⟨rfl, rfl⟩

end Interleave

/-! ## Three calls at once -/

/-- A run that is running. -/
def demoDb : Db String :=
  ⟨[DbRun.new "run-1" (ContentDigest.replicate '0' isLowerHex_zero).str none "agent" "" none false 0 0], []⟩

/-- Complete it, fail it, and append an event. -/
def demoRunCalls : Fin 3 → RunCall String
  | 0 => .completeRun 1 ⟨0, none, 1, true⟩
  | 1 => .failRun 2 ⟨0, none, 2, false⟩
  | 2 => .appendEvent 3 ⟨1, "late", "", 3⟩

def demoAfterCalls (schedule : List (Fin 3)) : LedgerConfig String (Fin 3) :=
  (callers "run-1" demoRunCalls demoDb).fireAll (Db.exec false) schedule

theorem hasEnded_of_result? {c : LedgerConfig String (Fin 3)} {i : Fin 3}
    (hends : (demoRunCalls i).ends = true) (hret : (c.procs i).result? = some (.ok ())) :
    HasEnded demoRunCalls c i :=
  ⟨hends, Proc.eq_ret_of_result? hret⟩

/-- The event is appended between the fetch of the first call and its write; the run is completed before the
third call fetches it. -/
theorem run_ends_at_most_once_demo :
    HasEnded demoRunCalls (demoAfterCalls [2, 0, 2, 0, 1]) 0 ∧
    (∀ i, HasEnded demoRunCalls (demoAfterCalls [2, 0, 2, 0, 1]) i → i = 0) ∧
    (demoAfterCalls [2, 0, 2, 0, 1]).store.eventsOf "run-1" =
      (demoAfterCalls [2, 0, 2, 0]).store.eventsOf "run-1" := by
  let start := callers "run-1" demoRunCalls demoDb
  have hrun : ∀ schedule, Logged (Db.exec false) start (start.logOf (Db.exec false) schedule)
      (demoAfterCalls schedule) := fun schedule => Logged.fireAll .start schedule
  have hmore : Logged (Db.exec false) (demoAfterCalls [2, 0, 2, 0])
      ((demoAfterCalls [2, 0, 2, 0]).logOf (Db.exec false) [1]) (demoAfterCalls [2, 0, 2, 0, 1]) :=
    Logged.fireAll .start [1]
  have hzero : HasEnded demoRunCalls (demoAfterCalls [2, 0, 2, 0, 1]) 0 :=
    hasEnded_of_result? rfl (by decide +kernel)
  refine ⟨hzero, ?_, ?_⟩
  · intro i hi
    exact (run_ends_at_most_once false "run-1" demoRunCalls demoDb _ _ (hrun [2, 0, 2, 0, 1])
      (by decide +kernel)).1 i 0 hi hzero
  · exact ((run_ends_at_most_once false "run-1" demoRunCalls demoDb _ _ (hrun [2, 0, 2, 0])
      (by decide +kernel)).2 (by decide +kernel) _ _ hmore (by decide +kernel)).2

theorem demo_steps (c : LedgerConfig String (Fin 3)) (schedule : List (Fin 3)) :
    Steps (Db.exec false) (fun _ _ => True) c (c.fireAll (Db.exec false) schedule) :=
  Steps.of_okAlong (Config.okAlong_of_forall (fun _ _ => trivial) _ _)

/-- All three calls fetch the row before any of them writes: the run is completed, then failed, and
then given an event. -/
theorem interleaved_calls_end_twice :
    ¬ (∀ c, Steps (Db.exec false) (fun _ _ => True) (callers "run-1" demoRunCalls demoDb) c →
      ∀ i j, HasEnded demoRunCalls c i → HasEnded demoRunCalls c j → i = j) ∧
    ¬ (∀ c, Steps (Db.exec false) (fun _ _ => True) (callers "run-1" demoRunCalls demoDb) c →
      ¬ Running c.store "run-1" → ∀ c', Steps (Db.exec false) (fun _ _ => True) c c' →
        c'.store.rowsOf "run-1" = c.store.rowsOf "run-1") ∧
    ¬ (∀ c, Steps (Db.exec false) (fun _ _ => True) (callers "run-1" demoRunCalls demoDb) c →
      ¬ Running c.store "run-1" → ∀ c', Steps (Db.exec false) (fun _ _ => True) c c' →
        c'.store.eventsOf "run-1" = c.store.eventsOf "run-1") := by
  refine ⟨?_, ?_, ?_⟩
  · intro honce
    have hboth := honce _ (demo_steps _ [0, 1, 2, 0, 1]) 0 1
      (hasEnded_of_result? rfl (by decide +kernel)) (hasEnded_of_result? rfl (by decide +kernel))
    exact absurd hboth (by decide)
  · intro hfrozen
    have hrows := hfrozen _ (demo_steps _ [0, 1, 2, 0]) (by decide +kernel) _ (demo_steps _ [1])
    revert hrows
    decide +kernel
  · intro hfrozen
    have hevents := hfrozen _ (demo_steps _ [0, 1, 2, 0]) (by decide +kernel) _ (demo_steps _ [2])
    revert hevents
    decide +kernel

end State
end Aivcs
