import Aivcs.Lib.Json
import Aivcs.State.LedgerRows

/-!
# RoleOrchestration.RunLedgers — the ledger behind the role tasks

The tasks hold an `Arc<dyn RunLedger>`.  `LedgerOps` is what they use of it, `LedgerOps.Faultless` what they
count on: that operations on a running run succeed, and that a run is nobody else's business.  The fake and a
database that answers every statement are such ledgers (`memoryLedger_faultless`, `surrealLedger_faultless`).
-/

namespace Aivcs
namespace RoleOrchestration

open Aivcs.Lib Aivcs.State

/-- What the tasks use of the trait `RunLedger`, and the status `get_run` shows.  `createRun` is given the
identifier it draws. -/
structure LedgerOps (σ : Type) where
  createRun : RunId → ContentDigest → RunMetadata Json → σ → Except StorageError RunId × σ
  completeRun : RunId → RunSummary → σ → Except StorageError Unit × σ
  failRun : RunId → RunSummary → σ → Except StorageError Unit × σ
  status : σ → RunId → Option RunStatus

/-- In the states with `Ok` no operation fails, a created run is running, one that is ended has ended so,
and the other runs stay as they are. -/
structure LedgerOps.Faultless {σ : Type} (ops : LedgerOps σ) (Ok : σ → Prop) : Prop where
  createRun : ∀ {l : σ} {runId : RunId} (specDigest : ContentDigest) (metadata : RunMetadata Json),
    Ok l → ops.status l runId = none →
      ∃ l', ops.createRun runId specDigest metadata l = (.ok runId, l') ∧ Ok l' ∧
        ops.status l' = Function.update (ops.status l) runId (some .running)
  completeRun : ∀ {l : σ} {runId : RunId} (summary : RunSummary),
    Ok l → ops.status l runId = some .running →
      ∃ l', ops.completeRun runId summary l = (.ok (), l') ∧ Ok l' ∧
        ops.status l' = Function.update (ops.status l) runId (some .completed)
  failRun : ∀ {l : σ} {runId : RunId} (summary : RunSummary),
    Ok l → ops.status l runId = some .running →
      ∃ l', ops.failRun runId summary l = (.ok (), l') ∧ Ok l' ∧
        ops.status l' = Function.update (ops.status l) runId (some .failed)

/-! ## The fake -/

section Memory

variable (now : Timestamp)

def memoryLedger : LedgerOps (MemoryRunLedger Json) where
  createRun runId specDigest metadata runs := runs.createRun runId now specDigest metadata
  completeRun runId summary runs := runs.completeRun runId now summary
  failRun runId summary runs := runs.failRun runId now summary
  status runs runId := (runs.getRun runId).toOption.map RunRecord.status

theorem status_memoryLedger (runs : MemoryRunLedger Json) :
    (memoryLedger now).status runs = fun runId => (runs runId).map fun state => state.record.status := by
  funext runId
  simp only [memoryLedger, MemoryRunLedger.getRun]
  cases runs runId <;> rfl

/-- The status after a run has been given another state. -/
theorem status_insert (runs : MemoryRunLedger Json) (runId : RunId) (state : RunState Json) :
    (fun rid => ((runs.insert runId state) rid).map fun s => s.record.status) =
      Function.update (fun rid => (runs rid).map fun s => s.record.status) runId
        (some state.record.status) := by
  funext rid
  by_cases hrid : rid = runId
  · subst hrid
    rw [Map.insert_self, Function.update_self, Option.map_some]
  · rw [Map.insert_of_ne _ _ hrid, Function.update_of_ne hrid]

theorem memoryLedger_faultless : (memoryLedger now).Faultless fun _ => True := by
  have hfinish : ∀ {runs : MemoryRunLedger Json} {runId : RunId} (status : RunStatus)
      (summary : RunSummary), (memoryLedger now).status runs runId = some .running →
      ∃ runs', runs.updateRunning runId (MemoryRunLedger.RunState.finish status summary now) =
          (.ok (), runs') ∧ True ∧
        (memoryLedger now).status runs' =
          Function.update ((memoryLedger now).status runs) runId (some status) := by
    intro runs runId status summary hrunning
    rw [status_memoryLedger] at hrunning
    obtain ⟨state, hstate, hstatus⟩ := Option.map_eq_some_iff.1 hrunning
    refine ⟨runs.insert runId (MemoryRunLedger.RunState.finish status summary now state), ?_, trivial, ?_⟩
    · simp only [MemoryRunLedger.updateRunning, hstate, hstatus, ne_eq, not_true_eq_false, if_false]
    · rw [status_memoryLedger, status_memoryLedger, status_insert]
      rfl
  refine ⟨?_, ?_, ?_⟩
  · intro runs runId specDigest metadata _ _
    refine ⟨_, rfl, trivial, ?_⟩
    rw [status_memoryLedger, status_memoryLedger]
    exact status_insert runs runId _
  · intro runs runId summary _ hrunning
    exact hfinish .completed summary hrunning
  · intro runs runId summary _ hrunning
    exact hfinish .failed summary hrunning

end Memory

/-! ## The database -/

section Surreal

variable (reports : Bool) (now : Timestamp)

def surrealLedger : LedgerOps (Db Json) where
  createRun runId specDigest metadata db :=
    (SurrealRunLedger.createRun runId now specDigest metadata).run (Db.exec reports) db
  completeRun runId summary db :=
    (SurrealRunLedger.completeRun runId now summary).run (Db.exec reports) db
  failRun runId summary db := (SurrealRunLedger.failRun runId now summary).run (Db.exec reports) db
  status db runId :=
    ((SurrealRunLedger.getRun runId).run (Db.exec reports) db).1.toOption.map RunRecord.status

/-- A database that holds the runs of some fake. -/
def HoldsRuns (db : Db Json) : Prop :=
  ∃ runs : MemoryRunLedger Json, ∀ rid, Linked (runs rid) (db.rowsOf rid) (db.eventsOf rid)

variable {db : Db Json} {runs : MemoryRunLedger Json}
  (hlinked : ∀ rid, Linked (runs rid) (db.rowsOf rid) (db.eventsOf rid))
include hlinked

theorem status_surrealLedger : (surrealLedger reports now).status db =
    fun runId => (runs runId).map fun state => state.record.status := by
  funext runId
  have h := hlinked runId
  simp only [surrealLedger]
  generalize runs runId = m at h ⊢
  generalize hrows : db.rowsOf runId = rows at h
  generalize db.eventsOf runId = events at h
  cases h with
  | unknown =>
      rw [SurrealRunLedger.getRun, Proc.run_andThen_error _ (run_fetchRun_error hrows)]
      rfl
  | @known state row _ hrow hevents hseq =>
      have hview : ((SurrealRunLedger.getRun runId).run (Db.exec reports) db).1.map RunRecord.view =
          .ok state.record.view := run_getRun_known hrows hrow
      generalize ((SurrealRunLedger.getRun runId).run (Db.exec reports) db).1 = got at hview
      cases got with
      | error e =>
          cases hview
      | ok record =>
          have hsame : record.view = state.record.view := Except.ok.inj hview
          exact congrArg (fun v : RunView Json => some v.status) hsame

/-- Ending a run that is running. -/
theorem run_finish {runId : RunId} {status : RunStatus} {summary : RunSummary}
    {f : DbRun Json → DbRun Json} (hends : Ends f status summary now)
    (hrunning : (surrealLedger reports now).status db runId = some .running) :
    ∃ db', (SurrealRunLedger.updateRunning runId f).run (Db.exec reports) db = (.ok (), db') ∧
      HoldsRuns db' ∧ (surrealLedger reports now).status db' =
        Function.update ((surrealLedger reports now).status db) runId (some status) := by
  rw [status_surrealLedger reports now hlinked] at hrunning
  obtain ⟨state, hstate, hstatus⟩ := Option.map_eq_some_iff.1 hrunning
  obtain ⟨row, hactive⟩ : ∃ row, Active runs db runId state row := by
    rcases (hlinked runId).guard_cases reports with ⟨_, _, _, _, _, hnot⟩ | ⟨state', row, hactive⟩
    · exact absurd hstatus (hnot state hstate)
    · obtain rfl : state = state' := Option.some.inj (hstate.symm.trans hactive.memory)
      exact ⟨row, hactive⟩
  let state' := MemoryRunLedger.RunState.finish status (keptSummary status summary) now state
  -- The statement changes the rows of this run only, as the fake changes its entry.
  have hlinked' : ∀ rid, Linked ((runs.insert runId state') rid)
      (Db.rowsOf { db with runs := Db.merge runId (f row) db.runs } rid)
      (Db.eventsOf { db with runs := Db.merge runId (f row) db.runs } rid) := by
    intro rid
    by_cases hrid : rid = runId
    · subst hrid
      rw [Map.insert_self]
      exact hactive.linked_finish hends
    · have hid : (f row).runId = runId := (hends.runId row).trans hactive.row_runId
      rw [Map.insert_of_ne _ _ hrid, Db.rowsOf_merge hid, if_neg hrid]
      exact hlinked rid
  refine ⟨_, run_updateRunning_active hactive f, ⟨_, hlinked'⟩, ?_⟩
  rw [status_surrealLedger reports now hlinked', status_surrealLedger reports now hlinked, status_insert]
  rfl

omit hlinked in
theorem surrealLedger_faultless : (surrealLedger reports now).Faultless HoldsRuns := by
  refine ⟨?_, ?_, ?_⟩
  · rintro db runId specDigest metadata ⟨runs, hlinked⟩ hnone
    rw [status_surrealLedger reports now hlinked, Option.map_eq_none_iff] at hnone
    have hnew := hlinked runId
    rw [hnone] at hnew
    generalize hrows : db.rowsOf runId = rows at hnew
    generalize hevents : db.eventsOf runId = events at hnew
    cases hnew
    let row := newRow runId now specDigest metadata
    have hlinked' : ∀ rid,
        Linked ((runs.insert runId ⟨⟨runId, specDigest, metadata, .running, none, now, none⟩, []⟩) rid)
          (Db.rowsOf { db with runs := db.runs ++ [row] } rid)
          (Db.eventsOf { db with runs := db.runs ++ [row] } rid) := by
      intro rid
      by_cases hrid : rid = runId
      · subst hrid
        rw [Map.insert_self]
        exact linked_create hrows hevents now specDigest metadata
      · have hid : row.runId ≠ rid := fun heq => hrid heq.symm
        rw [Map.insert_of_ne _ _ hrid, Db.rowsOf_concat, if_neg hid]
        exact hlinked rid
    refine ⟨_, run_createRun_new hrows now specDigest metadata, ⟨_, hlinked'⟩, ?_⟩
    rw [status_surrealLedger reports now hlinked', status_surrealLedger reports now hlinked,
      status_insert]
  · rintro db runId summary ⟨runs, hlinked⟩ hrunning
    exact run_finish reports now hlinked (ends_complete summary now) hrunning
  · rintro db runId summary ⟨runs, hlinked⟩ hrunning
    exact run_finish reports now hlinked (ends_fail summary now) hrunning

end Surreal

end RoleOrchestration
end Aivcs
