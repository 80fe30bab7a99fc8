import Aivcs.Lib.Run
import Aivcs.State.LedgerRows

/-!
# State.LedgerEquivalence — when the two run ledgers cannot be told apart

The fake and the ledger on the database are given the same calls, one after another.  What the
database keeps of a call is what the fake keeps, except that an event is stamped with the time of the
call, that `fail_run` and `cancel_run` drop the final digest, that `success` follows from the way the
run ended, and that a second event with a `seq` in use is not inserted.  The ledgers agree along a run
exactly when no call runs into one of these (`ledgers_agree_iff_nothing_dropped`).
-/

namespace Aivcs
namespace State

open Aivcs.Lib

variable {Value : Type}

/-! ## What is compared -/

inductive LedgerOp (Value : Type) where
  | createRun (specDigest : ContentDigest) (metadata : RunMetadata Value)
  | appendEvent (runId : RunId) (event : RunEvent Value)
  | completeRun (runId : RunId) (summary : RunSummary)
  | failRun (runId : RunId) (summary : RunSummary)
  | cancelRun (runId : RunId) (summary : RunSummary)
  | getRun (runId : RunId)
  | getEvents (runId : RunId)

/-- An operation at a reading of the clock. -/
structure LedgerCall (Value : Type) where
  now : Timestamp
  op : LedgerOp Value

inductive LedgerAnswer (Value : Type) where
  | created (runId : RunId)
  | done
  | run (view : RunView Value)
  | events (events : List (RunEvent Value))
  deriving DecidableEq

/-- The operation on the fake; `runId` is for a new run. -/
def MemoryRunLedger.call (runId : RunId) (c : LedgerCall Value) (runs : MemoryRunLedger Value) :
    Except StorageError (LedgerAnswer Value) × MemoryRunLedger Value :=
  match c.op with
  | .createRun specDigest metadata =>
      (runs.createRun runId c.now specDigest metadata).map (Except.map .created) id
  | .appendEvent rid event => (runs.appendEvent rid event).map (Except.map fun _ => .done) id
  | .completeRun rid summary =>
      (runs.completeRun rid c.now summary).map (Except.map fun _ => .done) id
  | .failRun rid summary => (runs.failRun rid c.now summary).map (Except.map fun _ => .done) id
  | .cancelRun rid summary => (runs.cancelRun rid c.now summary).map (Except.map fun _ => .done) id
  | .getRun rid => ((runs.getRun rid).map fun record => .run record.view, runs)
  | .getEvents rid => ((runs.getEvents rid).map .events, runs)

/-- The operation on the database. -/
def SurrealRunLedger.call (runId : RunId) (c : LedgerCall Value) :
    LedgerProc Value (Except StorageError (LedgerAnswer Value)) :=
  match c.op with
  | .createRun specDigest metadata =>
      (createRun runId c.now specDigest metadata).andThen fun rid => .ret (.ok (.created rid))
  | .appendEvent rid event =>
      (appendEvent rid c.now event).andThen fun _ => .ret (.ok .done)
  | .completeRun rid summary =>
      (completeRun rid c.now summary).andThen fun _ => .ret (.ok .done)
  | .failRun rid summary => (failRun rid c.now summary).andThen fun _ => .ret (.ok .done)
  | .cancelRun rid summary => (cancelRun rid c.now summary).andThen fun _ => .ret (.ok .done)
  | .getRun rid => (getRun rid).andThen fun record => .ret (.ok (.run record.view))
  | .getEvents rid => (getEvents rid).andThen fun events => .ret (.ok (.events events))

/-! ## Both ledgers under the same calls -/

structure Ledgers (Value : Type) where
  memory : MemoryRunLedger Value
  db : Db Value
  /-- how many runs have been created -/
  created : Nat

namespace Ledgers

def start : Ledgers Value :=
  ⟨∅, ⟨[], []⟩, 0⟩

/-- What a caller can see of a run. -/
def observed (state : RunState Value) : RunView Value × List (RunEvent Value) :=
  (state.record.view, state.events.insertionSort fun a b => a.seq ≤ b.seq)

variable (reports : Bool) (uuid : Nat → RunId)

def callMemory (s : Ledgers Value) (c : LedgerCall Value) :
    Except StorageError (LedgerAnswer Value) × MemoryRunLedger Value :=
  MemoryRunLedger.call (uuid s.created) c s.memory

def callSurreal (s : Ledgers Value) (c : LedgerCall Value) :
    Except StorageError (LedgerAnswer Value) × Db Value :=
  (SurrealRunLedger.call (uuid s.created) c).run (Db.exec reports) s.db

def step (s : Ledgers Value) (c : LedgerCall Value) : Ledgers Value where
  memory := (callMemory uuid s c).2
  db := (callSurreal reports uuid s c).2
  created :=
    match c.op with
    | .createRun _ _ => s.created + 1
    | _ => s.created

/-- The call is answered alike, up to the texts of an error. -/
def SameAnswer (s : Ledgers Value) (c : LedgerCall Value) : Prop :=
  (callMemory uuid s c).1.mapError StorageError.kind =
    (callSurreal reports uuid s c).1.mapError StorageError.kind

/-- `get_run` and `get_events` give the same for a run. -/
def SameRun (s : Ledgers Value) (rid : RunId) : Prop :=
  ((s.memory.getRun rid).map RunRecord.view).mapError StorageError.kind =
    (((SurrealRunLedger.getRun rid).run (Db.exec reports) s.db).1.map RunRecord.view).mapError
      StorageError.kind ∧
  (s.memory.getEvents rid).mapError StorageError.kind =
    ((SurrealRunLedger.getEvents rid).run (Db.exec reports) s.db).1.mapError StorageError.kind

/-- The call is answered alike, and so is every question about a run after it. -/
def Agree (s : Ledgers Value) (c : LedgerCall Value) : Prop :=
  SameAnswer reports uuid s c ∧ ∀ rid, SameRun reports (step reports uuid s c) rid

/-- The database keeps everything the call brings to a running run: an event is stamped with the
time of the call and its `seq` is new; a completed run succeeded; a failed or cancelled one did not
and has no final digest. -/
def NothingDropped (s : Ledgers Value) (c : LedgerCall Value) : Prop :=
  match c.op with
  | .appendEvent rid event => ∀ state, s.memory rid = some state →
      state.record.status = .running →
      event.timestamp = c.now ∧ ∀ e ∈ state.events, e.seq ≠ event.seq
  | .completeRun rid summary => ∀ state, s.memory rid = some state →
      state.record.status = .running → summary.success = true
  | .failRun rid summary => ∀ state, s.memory rid = some state →
      state.record.status = .running → summary.success = false ∧ summary.finalStateDigest = none
  | .cancelRun rid summary => ∀ state, s.memory rid = some state →
      state.record.status = .running → summary.success = false ∧ summary.finalStateDigest = none
  | _ => True

variable {reports uuid} {s : Ledgers Value} {c : LedgerCall Value} {rid : RunId}

/-- When the rows of a run hold `m`, the ledgers agree on it exactly when the fake shows `m`. -/
theorem sameRun_iff {m : Option (RunState Value)}
    (h : Linked m (s.db.rowsOf rid) (s.db.eventsOf rid)) :
    SameRun reports s rid ↔ (s.memory rid).map observed = m.map observed := by
  generalize hrows : s.db.rowsOf rid = rows at h
  generalize hevents : s.db.eventsOf rid = events at h
  unfold SameRun
  cases h with
  | unknown =>
      have hrun : (SurrealRunLedger.getRun rid).run (Db.exec reports) s.db =
          (.error (.runNotFound rid), s.db) :=
        Proc.run_andThen_error _ (run_fetchRun_error hrows)
      have hgetEvents : (SurrealRunLedger.getEvents rid).run (Db.exec reports) s.db =
          (.error (.runNotFound rid), s.db) :=
        Proc.run_andThen_error _ (run_fetchRun_error hrows)
      rw [hrun, hgetEvents]
      cases hm : s.memory rid with
      | none =>
          simp [MemoryRunLedger.getRun, MemoryRunLedger.getEvents, hm, Except.mapError, Except.map]
      | some state =>
          simp [MemoryRunLedger.getRun, MemoryRunLedger.getEvents, hm, Except.mapError, Except.map]
  | @known state row _ hrow hconv hseq =>
      rw [run_getRun_known hrows hrow, run_getEvents_known hrows (hevents ▸ hconv)]
      cases hm : s.memory rid with
      | none =>
          simp [MemoryRunLedger.getRun, MemoryRunLedger.getEvents, hm, Except.mapError, Except.map]
      | some state' =>
          simp [MemoryRunLedger.getRun, MemoryRunLedger.getEvents, hm, Except.mapError, Except.map,
            observed]

/-- What holds while the database has kept everything. -/
structure Inv (uuid : Nat → RunId) (s : Ledgers Value) : Prop where
  linked : ∀ rid, Linked (s.memory rid) (s.db.rowsOf rid) (s.db.eventsOf rid)
  fresh : ∀ n, s.created ≤ n → s.memory (uuid n) = none

/-- What a call does: after it the database holds `m` for the run `rid`, which is what the fake has
if nothing is dropped and cannot be told from it only then; for the other runs nothing is lost. -/
structure Outcome (reports : Bool) (uuid : Nat → RunId) (s : Ledgers Value) (c : LedgerCall Value)
    (rid : RunId) (m : Option (RunState Value)) : Prop where
  linked : Linked m ((step reports uuid s c).db.rowsOf rid) ((step reports uuid s c).db.eventsOf rid)
  others : ∀ rid', rid' ≠ rid → Linked ((step reports uuid s c).memory rid')
    ((step reports uuid s c).db.rowsOf rid') ((step reports uuid s c).db.eventsOf rid')
  answers : NothingDropped s c → SameAnswer reports uuid s c
  kept : NothingDropped s c → (step reports uuid s c).memory rid = m
  dropped : ((step reports uuid s c).memory rid).map observed = m.map observed →
    NothingDropped s c
  fresh : ∀ n, (step reports uuid s c).created ≤ n → (step reports uuid s c).memory (uuid n) = none

theorem Outcome.inv {m : Option (RunState Value)} (h : Outcome reports uuid s c rid m)
    (hc : NothingDropped s c) : Inv uuid (step reports uuid s c) := by
  refine ⟨?_, h.fresh⟩
  intro rid'
  by_cases hrid : rid' = rid
  · subst hrid
    rw [h.kept hc]
    exact h.linked
  · exact h.others rid' hrid

theorem Outcome.agree_iff {m : Option (RunState Value)} (h : Outcome reports uuid s c rid m) :
    Agree reports uuid s c ↔ NothingDropped s c := by
  constructor
  · rintro ⟨-, hsame⟩
    exact h.dropped ((sameRun_iff h.linked).mp (hsame rid))
  · intro hc
    refine ⟨h.answers hc, ?_⟩
    intro rid'
    exact (sameRun_iff ((h.inv hc).linked rid')).mpr rfl

/-- A call that changes neither ledger. -/
theorem Inv.outcome_unchanged (h : Inv uuid s) (rid : RunId)
    (hstep : step reports uuid s c = s) (hanswer : SameAnswer reports uuid s c)
    (hc : NothingDropped s c) : Outcome reports uuid s c rid (s.memory rid) := by
  refine ⟨?_, ?_, fun _ => hanswer, ?_, fun _ => hc, ?_⟩
  · rw [hstep]
    exact h.linked rid
  · intro rid' _
    rw [hstep]
    exact h.linked rid'
  · intro _
    rw [hstep]
  · rw [hstep]
    exact h.fresh

/-! ### Reading -/

theorem run_fetchRun_snd (db : Db Value) :
    ((SurrealRunLedger.fetchRun rid).run (Db.exec reports) db).2 = db := by
  simp only [SurrealRunLedger.fetchRun, SurrealRunLedger.query, Proc.andThen_call, Proc.run_call,
    Db.exec, Except.mapError, Proc.andThen_ret_ok]
  split <;> rfl

theorem run_getRun_snd (db : Db Value) :
    ((SurrealRunLedger.getRun rid).run (Db.exec reports) db).2 = db :=
  Proc.run_andThen_snd_eq _ (run_fetchRun_snd db) fun _ => rfl

theorem run_getEvents_snd (db : Db Value) :
    ((SurrealRunLedger.getEvents rid).run (Db.exec reports) db).2 = db :=
  Proc.run_andThen_snd_eq _ (run_fetchRun_snd db) fun _ => rfl

theorem mapError_map_congr {α β γ ε κ : Type} {k : ε → κ} {f : α → β} {x y : Except ε α}
    (h : (x.map f).mapError k = (y.map f).mapError k) (g : β → γ) :
    (x.map fun a => g (f a)).mapError k = (y.map fun a => g (f a)).mapError k := by
  have hcomm : ∀ z : Except ε α,
      (z.map fun a => g (f a)).mapError k = ((z.map f).mapError k).map g := by
    intro z
    cases z <;> rfl
  rw [hcomm, hcomm, h]

theorem Inv.outcome_getRun (h : Inv uuid s) (now : Timestamp) (rid : RunId) :
    Outcome reports uuid s ⟨now, .getRun rid⟩ rid (s.memory rid) := by
  have hsame : SameRun reports s rid := (sameRun_iff (h.linked rid)).mpr rfl
  have hcall : callSurreal reports uuid s ⟨now, .getRun rid⟩ =
      (((SurrealRunLedger.getRun rid).run (Db.exec reports) s.db).1.map fun record =>
        .run record.view, s.db) := by
    unfold callSurreal SurrealRunLedger.call
    rw [Proc.run_andThen_ret, run_getRun_snd]
  refine h.outcome_unchanged rid ?_ ?_ trivial
  · unfold step
    rw [hcall]
    rfl
  · unfold SameAnswer
    rw [hcall]
    exact mapError_map_congr hsame.1 LedgerAnswer.run

theorem Inv.outcome_getEvents (h : Inv uuid s) (now : Timestamp) (rid : RunId) :
    Outcome reports uuid s ⟨now, .getEvents rid⟩ rid (s.memory rid) := by
  have hsame : SameRun reports s rid := (sameRun_iff (h.linked rid)).mpr rfl
  have hcall : callSurreal reports uuid s ⟨now, .getEvents rid⟩ =
      (((SurrealRunLedger.getEvents rid).run (Db.exec reports) s.db).1.map .events, s.db) := by
    unfold callSurreal SurrealRunLedger.call
    rw [Proc.run_andThen_ret, run_getEvents_snd]
  refine h.outcome_unchanged rid ?_ ?_ trivial
  · unfold step
    rw [hcall]
    rfl
  · unfold SameAnswer
    rw [hcall]
    have hevents : ((s.memory.getEvents rid).map id).mapError StorageError.kind =
        (((SurrealRunLedger.getEvents rid).run (Db.exec reports) s.db).1.map id).mapError
          StorageError.kind := by
      simpa using hsame.2
    exact mapError_map_congr hevents LedgerAnswer.events

/-! ### Changing one run -/

/-- A call after which the fake has `state` for the run and the database holds `m` for it. -/
theorem Inv.outcome_changed (h : Inv uuid s) {state : RunState Value}
    {m : Option (RunState Value)} {db : Db Value}
    (hmemory : (callMemory uuid s c).2 = s.memory.insert rid state)
    (hdb : (callSurreal reports uuid s c).2 = db)
    (hlinked : Linked m (db.rowsOf rid) (db.eventsOf rid))
    (hothers : ∀ rid', rid' ≠ rid →
      db.rowsOf rid' = s.db.rowsOf rid' ∧ db.eventsOf rid' = s.db.eventsOf rid')
    (hfresh : ∀ n, (step reports uuid s c).created ≤ n → s.created ≤ n ∧ uuid n ≠ rid)
    (hanswers : NothingDropped s c → SameAnswer reports uuid s c)
    (hkept : NothingDropped s c → some state = m)
    (hdropped : some (observed state) = m.map observed → NothingDropped s c) :
    Outcome reports uuid s c rid m := by
  have hmemory' : (step reports uuid s c).memory = s.memory.insert rid state := hmemory
  have hdb' : (step reports uuid s c).db = db := hdb
  have hself : (step reports uuid s c).memory rid = some state := by
    rw [hmemory']
    exact Map.insert_self _ _ _
  have hne : ∀ rid', rid' ≠ rid → (step reports uuid s c).memory rid' = s.memory rid' := by
    intro rid' hrid
    rw [hmemory']
    exact Map.insert_of_ne _ _ hrid
  refine ⟨?_, ?_, hanswers, ?_, ?_, ?_⟩
  · rw [hdb']
    exact hlinked
  · intro rid' hrid
    rw [hne rid' hrid, hdb', (hothers rid' hrid).1, (hothers rid' hrid).2]
    exact h.linked rid'
  · intro hc
    rw [hself]
    exact hkept hc
  · intro heq
    rw [hself, Option.map_some] at heq
    exact hdropped heq
  · intro n hn
    obtain ⟨hcreated, hrid⟩ := hfresh n hn
    rw [hne _ hrid]
    exact h.fresh n hcreated

theorem Inv.outcome_createRun (huuid : Function.Injective uuid) (h : Inv uuid s) (now : Timestamp)
    (d : ContentDigest) (m : RunMetadata Value) :
    Outcome reports uuid s ⟨now, .createRun d m⟩ (uuid s.created)
      (some ⟨⟨uuid s.created, d, m, .running, none, now, none⟩, []⟩) := by
  -- The new identifier is in neither table.
  have hlinked := h.linked (uuid s.created)
  rw [h.fresh s.created le_rfl] at hlinked
  generalize hrows : s.db.rowsOf (uuid s.created) = rows at hlinked
  generalize hevents : s.db.eventsOf (uuid s.created) = events at hlinked
  cases hlinked
  let row := newRow (uuid s.created) now d m
  have hid : row.runId = uuid s.created := rfl
  have hcall : callSurreal reports uuid s ⟨now, .createRun d m⟩ =
      (.ok (.created (uuid s.created)), { s.db with runs := s.db.runs ++ [row] }) := by
    unfold callSurreal SurrealRunLedger.call
    rw [Proc.run_andThen_ok _ (run_createRun_new hrows now d m), Proc.run_ret]
  refine h.outcome_changed rfl (congrArg Prod.snd hcall) ?_ ?_ ?_ ?_ (fun _ => rfl)
    (fun _ => trivial)
  · exact linked_create hrows hevents now d m
  · intro rid' hrid
    rw [Db.rowsOf_concat, if_neg fun heq => hrid (heq.symm.trans hid)]
    exact ⟨rfl, rfl⟩
  · intro n hn
    have hlt : s.created < n := hn
    exact ⟨le_of_lt hlt, fun heq => absurd (huuid heq) (ne_of_gt hlt)⟩
  · intro _
    unfold SameAnswer
    rw [hcall]
    rfl

/-- The guard refuses the call in both ledgers. -/
theorem Inv.outcome_refused (h : Inv uuid s) {e e' : StorageError} (hkind : e.kind = e'.kind)
    (hmemory : callMemory uuid s c = (.error e, s.memory))
    (hsurreal : callSurreal reports uuid s c = (.error e', s.db))
    (hcreated : (step reports uuid s c).created = s.created) (hc : NothingDropped s c)
    (rid : RunId) : Outcome reports uuid s c rid (s.memory rid) := by
  refine h.outcome_unchanged rid ?_ ?_ hc
  · calc step reports uuid s c
        = ⟨(callMemory uuid s c).2, (callSurreal reports uuid s c).2,
            (step reports uuid s c).created⟩ := rfl
      _ = s := by rw [hmemory, hsurreal, hcreated]
  · unfold SameAnswer
    rw [hmemory, hsurreal]
    exact congrArg Except.error hkind

/-- Two events with one `seq`, or an event with another one's. -/
theorem observed_append_ne {state : RunState Value} (event : RunEvent Value) :
    observed { state with events := state.events ++ [event] } ≠ observed state := by
  intro heq
  have hlength := congrArg (fun p => p.2.length) heq
  simp [observed] at hlength

theorem eq_of_observed_append {state : RunState Value} {event event' : RunEvent Value}
    (hseq : ∀ e ∈ state.events, e.seq ≠ event.seq)
    (h : observed { state with events := state.events ++ [event] } =
      observed { state with events := state.events ++ [event'] }) : event = event' := by
  have hsorted : (state.events ++ [event]).insertionSort (fun a b => a.seq ≤ b.seq) =
      (state.events ++ [event']).insertionSort fun a b => a.seq ≤ b.seq := congrArg Prod.snd h
  have hmem : event ∈ (state.events ++ [event']).insertionSort fun a b => a.seq ≤ b.seq := by
    have hself : event ∈ (state.events ++ [event]).insertionSort fun a b => a.seq ≤ b.seq := by
      simp
    exact hsorted ▸ hself
  rw [List.mem_insertionSort, List.mem_append, List.mem_singleton] at hmem
  exact hmem.resolve_left fun hold => hseq event hold rfl

theorem callSurreal_appendEvent (now : Timestamp) (event : RunEvent Value) :
    callSurreal reports uuid s ⟨now, .appendEvent rid event⟩ =
      Prod.map (Except.map fun _ => .done) id
        ((SurrealRunLedger.appendEvent rid now event).run (Db.exec reports) s.db) :=
  Proc.run_andThen_ret _ _ _ _

theorem callMemory_appendEvent {state : RunState Value} {row : DbRun Value}
    (h : Active s.memory s.db rid state row) (now : Timestamp) (event : RunEvent Value) :
    callMemory uuid s ⟨now, .appendEvent rid event⟩ =
      (.ok .done, s.memory.insert rid { state with events := state.events ++ [event] }) :=
  congrArg (Prod.map (Except.map fun _ => LedgerAnswer.done) id) (h.updateRunning _)

theorem Inv.fresh_ne (h : Inv uuid s) {state : RunState Value} (hm : s.memory rid = some state)
    {n : Nat} (hn : s.created ≤ n) : s.created ≤ n ∧ uuid n ≠ rid := by
  refine ⟨hn, ?_⟩
  rintro rfl
  rw [h.fresh n hn] at hm
  cases hm

/-- The unique index refuses an event whose `seq` is in use: the database holds what it held. -/
theorem Inv.outcome_append_used (h : Inv uuid s) {state : RunState Value} {row : DbRun Value}
    (hactive : Active s.memory s.db rid state row) (now : Timestamp) {event : RunEvent Value}
    (hused : ∃ e ∈ s.db.eventsOf rid, e.seq = event.seq) :
    Outcome reports uuid s ⟨now, .appendEvent rid event⟩ rid (some state) := by
  have hnot : ¬ NothingDropped s ⟨now, .appendEvent rid event⟩ := by
    intro hc
    obtain ⟨e, he, heq⟩ := hused
    have hmem : SurrealRunLedger.dbEventToEvent e ∈ state.events :=
      hactive.events ▸ List.mem_map_of_mem he
    exact (hc state hactive.memory hactive.running).2 _ hmem heq
  have hdb : (callSurreal reports uuid s ⟨now, .appendEvent rid event⟩).2 = s.db := by
    rw [callSurreal_appendEvent, run_appendEvent_active hactive]
    exact congrArg Prod.snd (Db.exec_createEvent_used hused)
  refine h.outcome_changed (congrArg Prod.snd (callMemory_appendEvent hactive now event)) hdb ?_
    (fun _ _ => ⟨rfl, rfl⟩) (fun n hn => h.fresh_ne hactive.memory hn)
    (fun hc => absurd hc hnot) (fun hc => absurd hc hnot) ?_
  · rw [← hactive.memory]
    exact h.linked rid
  · intro heq
    exact absurd (Option.some.inj heq) (observed_append_ne event)

/-- An event with a new `seq` is inserted, stamped with the time of the call. -/
theorem Inv.outcome_append_new (h : Inv uuid s) {state : RunState Value} {row : DbRun Value}
    (hactive : Active s.memory s.db rid state row) (now : Timestamp) {event : RunEvent Value}
    (hunused : ¬ ∃ e ∈ s.db.eventsOf rid, e.seq = event.seq) :
    Outcome reports uuid s ⟨now, .appendEvent rid event⟩ rid
      (some { state with events := state.events ++ [{ event with timestamp := now }] }) := by
  let row' : DbEvent Value := DbEvent.new rid event.seq event.kind event.payload now
  have hid : row'.runId = rid := rfl
  have hnew : ∀ e ∈ state.events, e.seq ≠ event.seq := by
    intro e he heq
    rw [← hactive.events] at he
    obtain ⟨e', he', rfl⟩ := List.mem_map.mp he
    exact hunused ⟨e', he', heq⟩
  have hmemory := @callMemory_appendEvent _ uuid _ _ _ _ hactive now event
  have hsurreal : callSurreal reports uuid s ⟨now, .appendEvent rid event⟩ =
      (.ok .done, { s.db with runEvents := s.db.runEvents ++ [row'] }) := by
    have hexec : Db.exec reports (.createEvent row') s.db =
        (.ok (), { s.db with runEvents := s.db.runEvents ++ [row'] }) :=
      Db.exec_createEvent_new hunused
    rw [callSurreal_appendEvent, run_appendEvent_active hactive, hexec]
    rfl
  refine h.outcome_changed (congrArg Prod.snd hmemory) (congrArg Prod.snd hsurreal) ?_ ?_
    (fun n hn => h.fresh_ne hactive.memory hn) ?_ ?_ ?_
  · exact hactive.linked_append hid hnew
  · intro rid' hrid
    refine ⟨rfl, ?_⟩
    exact (Db.eventsOf_concat row').trans (if_neg fun heq => hrid (heq.symm.trans hid))
  · intro _
    unfold SameAnswer
    rw [hmemory, hsurreal]
  · intro hc
    have hstamp : event.timestamp = now := (hc state hactive.memory hactive.running).1
    rw [← hstamp]
  · intro heq state' hstate' _
    obtain rfl : state = state' := Option.some.inj (hactive.memory.symm.trans hstate')
    refine ⟨?_, hnew⟩
    have hevent := eq_of_observed_append hnew (Option.some.inj heq)
    exact congrArg RunEvent.timestamp hevent

theorem Inv.outcome_appendEvent (h : Inv uuid s) (now : Timestamp) (rid : RunId)
    (event : RunEvent Value) : ∃ m, Outcome reports uuid s ⟨now, .appendEvent rid event⟩ rid m := by
  rcases (h.linked rid).guard_cases reports with
    ⟨e, e', hkind, hmemory, hfetch, hnot⟩ | ⟨state, row, hactive⟩
  · refine ⟨_, h.outcome_refused hkind ?_ ?_ rfl ?_ rid⟩
    · exact congrArg (Prod.map (Except.map fun _ => LedgerAnswer.done) id) (hmemory _)
    · rw [callSurreal_appendEvent, SurrealRunLedger.appendEvent, Proc.run_andThen_error _ hfetch]
      rfl
    · intro state hstate hrunning
      exact absurd hrunning (hnot state hstate)
  · by_cases hused : ∃ e ∈ s.db.eventsOf rid, e.seq = event.seq
    · exact ⟨_, h.outcome_append_used hactive now hused⟩
    · exact ⟨_, h.outcome_append_new hactive now hused⟩

/-- A call that ends a run. -/
theorem Inv.outcome_finish (h : Inv uuid s) {f : DbRun Value → DbRun Value} {status : RunStatus}
    {summary : RunSummary} (hends : Ends f status summary c.now)
    (hmemory : callMemory uuid s c = Prod.map (Except.map fun _ => .done) id
      (s.memory.updateRunning rid (MemoryRunLedger.RunState.finish status summary c.now)))
    (hsurreal : callSurreal reports uuid s c = Prod.map (Except.map fun _ => .done) id
      ((SurrealRunLedger.updateRunning rid f).run (Db.exec reports) s.db))
    (hcreated : (step reports uuid s c).created = s.created)
    (hiff : NothingDropped s c ↔ ∀ state, s.memory rid = some state →
      state.record.status = .running → keptSummary status summary = summary) :
    ∃ m, Outcome reports uuid s c rid m := by
  rcases (h.linked rid).guard_cases reports with
    ⟨e, e', hkind, herror, hfetch, hnot⟩ | ⟨state, row, hactive⟩
  · refine ⟨_, h.outcome_refused hkind ?_ ?_ hcreated ?_ rid⟩
    · rw [hmemory, herror]
      rfl
    · rw [hsurreal, SurrealRunLedger.updateRunning, Proc.run_andThen_error _ hfetch]
      rfl
    · rw [hiff]
      intro state hstate hrunning
      exact absurd hrunning (hnot state hstate)
  · rw [hactive.updateRunning] at hmemory
    rw [run_updateRunning_active hactive] at hsurreal
    have hid : (f row).runId = rid := (hends.runId row).trans hactive.row_runId
    -- The database holds the ended run with the summary it keeps.
    refine ⟨some (MemoryRunLedger.RunState.finish status (keptSummary status summary) c.now state),
      h.outcome_changed (congrArg Prod.snd hmemory) (congrArg Prod.snd hsurreal) ?_ ?_ ?_ ?_ ?_ ?_⟩
    · exact hactive.linked_finish hends
    · intro rid' hrid
      refine ⟨?_, rfl⟩
      exact (Db.rowsOf_merge hid rid').trans (if_neg hrid)
    · intro n hn
      exact h.fresh_ne hactive.memory (hcreated ▸ hn)
    · intro _
      unfold SameAnswer
      rw [hmemory, hsurreal]
      rfl
    · intro hc
      rw [hiff.mp hc state hactive.memory hactive.running]
    · intro heq
      rw [hiff]
      intro _ _ _
      have hview := congrArg (fun p => p.1.summary) (Option.some.inj heq)
      exact (Option.some.inj hview).symm

theorem Inv.outcome (huuid : Function.Injective uuid) (h : Inv uuid s) (c : LedgerCall Value) :
    ∃ rid m, Outcome reports uuid s c rid m := by
  obtain ⟨now, op⟩ := c
  cases op with
  | createRun d m =>
      exact ⟨_, _, h.outcome_createRun huuid now d m⟩
  | appendEvent rid event =>
      exact ⟨rid, h.outcome_appendEvent now rid event⟩
  | completeRun rid summary =>
      refine ⟨rid, h.outcome_finish (ends_complete summary now) rfl
        (Proc.run_andThen_ret _ _ _ _) rfl ?_⟩
      rw [keptSummary_completed]
      exact Iff.rfl
  | failRun rid summary =>
      refine ⟨rid, h.outcome_finish (ends_fail summary now) rfl
        (Proc.run_andThen_ret _ _ _ _) rfl ?_⟩
      rw [keptSummary_of_ne (by decide)]
      exact Iff.rfl
  | cancelRun rid summary =>
      refine ⟨rid, h.outcome_finish (ends_cancel summary now) rfl
        (Proc.run_andThen_ret _ _ _ _) rfl ?_⟩
      rw [keptSummary_of_ne (by decide)]
      exact Iff.rfl
  | getRun rid =>
      exact ⟨rid, _, h.outcome_getRun now rid⟩
  | getEvents rid =>
      exact ⟨rid, _, h.outcome_getEvents now rid⟩

theorem Inv.init (uuid : Nat → RunId) : Inv uuid (start : Ledgers Value) :=
  ⟨fun _ => Linked.unknown, fun _ _ => rfl⟩

end Ledgers

open Ledgers

/-- Along every sequence of calls, the two ledgers answer every call alike and agree on every run
after it if and only if no call brings a running run something the database does not keep. -/
theorem ledgers_agree_iff_nothing_dropped (reports : Bool) (uuid : Nat → RunId)
    (huuid : Function.Injective uuid) (calls : List (LedgerCall Value)) :
    EachStep (step reports uuid) (Agree reports uuid) start calls ↔
      EachStep (step reports uuid) NothingDropped start calls := by
  refine eachStep_congr ?_ ?_ (Inv.init uuid)
  · intro s c h
    obtain ⟨rid, m, hout⟩ := h.outcome huuid c
    exact hout.agree_iff
  · intro s c h hc
    obtain ⟨rid, m, hout⟩ := h.outcome huuid c
    exact hout.inv hc

/-- Identifiers of growing length. -/
def demoUuid (n : Nat) : RunId :=
  String.ofList (List.replicate n 'r')

theorem demoUuid_injective : Function.Injective demoUuid := by
  intro m n h
  have hlength := congrArg String.length h
  simpa [demoUuid] using hlength

/-- Create a run and append an event stamped `timestamp` to it at time 7. -/
def demoLedgerCalls (timestamp : Timestamp) : List (LedgerCall String) :=
  [⟨6, .createRun (.replicate '0' isLowerHex_zero) ⟨none, "agent", "", .default⟩⟩,
    ⟨7, .appendEvent (demoUuid 0) ⟨1, "graph_started", "", timestamp⟩⟩]

theorem ledgers_agree_iff_nothing_dropped_demo :
    EachStep (step false demoUuid) (Agree false demoUuid) start (demoLedgerCalls 7) := by
  refine (ledgers_agree_iff_nothing_dropped false demoUuid demoUuid_injective _).mpr ?_
  refine eachStep_cons.mpr ⟨trivial, eachStep_cons.mpr ⟨?_, eachStep_nil⟩⟩
  intro state hstate _
  obtain rfl := Option.some.inj hstate
  exact ⟨rfl, fun e he => absurd he List.not_mem_nil⟩

/-- An event stamped 5 and appended at time 7 is read back with stamp 7. -/
theorem ledgers_disagree_on_timestamp :
    ¬ EachStep (step false demoUuid) (Agree false demoUuid) start (demoLedgerCalls 5) := by
  intro hagree
  have hsecond := (eachStep_cons.mp (eachStep_cons.mp hagree).2).1
  have hevents := (hsecond.2 (demoUuid 0)).2
  revert hevents
  decide +kernel

end State
end Aivcs
