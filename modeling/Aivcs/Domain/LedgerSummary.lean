import Aivcs.Domain.EventAdapter

/-!
# Domain.LedgerSummary — the summary of a run and the events of the ledger

The handler numbers the events it handles and counts by the number that comes next.  An append that the
ledger refuses has its number all the same, so the summary counts what was handled and the numbers of the
stored events have a gap where one was refused (`session_run`).
-/

namespace Aivcs
namespace Domain

open Lib State

namespace LedgerHandler

/-! ## What is stored -/

/-- The events that the ledger takes, the first of the given ones being number `n`. -/
def stored : Nat → List Handled → List (RunEvent Value)
  | _, [] => []
  | n, (event, none) :: events => adapted n event :: stored (n + 1) events
  | n, (_, some _) :: events => stored (n + 1) events

/-- The events whose append was not refused. -/
def accepted (events : List Handled) : List Handled :=
  events.filter fun event => event.2.isNone

theorem length_stored (n : Nat) (events : List Handled) :
    (stored n events).length = (accepted events).length := by
  induction events generalizing n with
  | nil =>
      rfl
  | cons event events ih =>
      rcases event with ⟨event, _ | e⟩
      · simp [stored, accepted, ih (n + 1)]
      · simp [stored, accepted, ih (n + 1)]

/-- What is stored, without the numbers, in the order in which it was handled. -/
theorem map_stored {β : Type} (f : RunEvent Value → β)
    (hf : ∀ n m event, f (adapted n event) = f (adapted m event))
    (n : Nat) (events : List Handled) :
    (stored n events).map f = (accepted events).map fun event => f (adapted 0 event.1) := by
  induction events generalizing n with
  | nil =>
      rfl
  | cons event events ih =>
      rcases event with ⟨event, _ | e⟩
      · have htail := ih (n + 1)
        simp only [accepted] at htail
        simp [stored, accepted, htail, hf n 0]
      · have htail := ih (n + 1)
        simp only [accepted] at htail
        simp [stored, accepted, htail]

theorem seq_stored_of_accepted {events : List Handled} (h : ∀ event ∈ events, event.2 = none) (n : Nat) :
    (stored n events).map RunEvent.seq = List.range' n events.length := by
  induction events generalizing n with
  | nil =>
      rfl
  | cons event events ih =>
      rcases event with ⟨event, refusal⟩
      have hnone : refusal = none := h _ List.mem_cons_self
      subst hnone
      have htail := ih (fun e he => h e (List.mem_cons_of_mem _ he)) (n + 1)
      simp only [stored, List.map_cons, htail, List.length_cons, List.range'_succ]
      rfl

/-! ## One event, and all of them -/

/-- Between start and stop: the run is open, has the given events and no summary. -/
structure Open (s : LedgerHandler × MemoryRunLedger Value) (id : RunId)
    (record : RunRecord Value) (events : List (RunEvent Value)) : Prop where
  runId : s.1.runId = some id
  running : record.status = .running
  state : s.2 id = some ⟨record, events⟩

theorem append_running {runs : MemoryRunLedger Value} {id : RunId} {record : RunRecord Value}
    {events : List (RunEvent Value)} (hrunning : record.status = .running)
    (hstate : runs id = some ⟨record, events⟩) (refusal : Option StorageError) (event : RunEvent Value) :
    (append refusal runs id event).2 id
      = some ⟨record, if refusal = none then events ++ [event] else events⟩ := by
  cases refusal with
  | some e =>
      exact hstate
  | none =>
      simp only [append, MemoryRunLedger.appendEvent, MemoryRunLedger.updateRunning, hstate]
      rw [if_neg (not_not_intro hrunning)]
      exact Map.insert_self _ _ _

/-- One event: its number is used up, whatever becomes of the append. -/
theorem open_handle {s : LedgerHandler × MemoryRunLedger Value} {id : RunId}
    {record : RunRecord Value} {events : List (RunEvent Value)} (h : Open s id record events)
    (event : Handled) :
    Open (handle s event) id record (events ++ stored s.1.seq [event]) ∧
      (handle s event).1.seq = s.1.seq + 1 ∧
        (handle s event).1.sawError = (s.1.sawError || event.1.kind.isError) := by
  have happend := append_running h.running h.state event.2 (adapted s.1.seq event.1)
  have hhandle : handle s event =
      ({ s.1 with sawError := s.1.sawError || event.1.kind.isError, seq := s.1.seq + 1 },
        (append event.2 s.2 id (adapted s.1.seq event.1)).2) := by
    simp only [handle, h.runId]
  rw [hhandle]
  refine ⟨⟨h.runId, h.running, ?_⟩, rfl, rfl⟩
  refine happend.trans ?_
  rcases event with ⟨event, _ | e⟩
  · simp [stored]
  · simp [stored]

/-- All events between start and stop. -/
theorem open_handleAll {s : LedgerHandler × MemoryRunLedger Value} {id : RunId}
    {record : RunRecord Value} {events : List (RunEvent Value)} (h : Open s id record events)
    (handled : List Handled) :
    Open (handled.foldl handle s) id record (events ++ stored s.1.seq handled) ∧
      (handled.foldl handle s).1.seq = s.1.seq + handled.length ∧
        (handled.foldl handle s).1.sawError
          = (s.1.sawError || handled.any fun event => event.1.kind.isError) := by
  induction handled generalizing s events with
  | nil =>
      simpa [stored] using h
  | cons event handled ih =>
      rcases open_handle h event with ⟨hopen, hseq, herror⟩
      rcases ih hopen with ⟨hopen', hseq', herror'⟩
      have hstored : stored s.1.seq [event] ++ stored (s.1.seq + 1) handled
          = stored s.1.seq (event :: handled) := by
        rcases event with ⟨event, _ | e⟩
        · rfl
        · rfl
      rw [hseq, List.append_assoc, hstored] at hopen'
      refine ⟨hopen', ?_, ?_⟩
      · rw [List.foldl_cons, hseq', hseq, List.length_cons]
        omega
      · rw [List.foldl_cons, herror', herror, List.any_cons, Bool.or_assoc]

/-! ## The run after the session -/

theorem open_onStart (handler : LedgerHandler) (fresh : RunId) (start : Timestamp)
    (runs : MemoryRunLedger Value) :
    Open (handler.onStart fresh start runs) fresh
      ⟨fresh, handler.specDigest, handler.metadata, .running, none, start, none⟩ [] :=
  ⟨rfl, rfl, Map.insert_self _ _ _⟩

theorem run_onStop {s : LedgerHandler × MemoryRunLedger Value} {id : RunId}
    {record : RunRecord Value} {events : List (RunEvent Value)} (h : Open s id record events)
    (stop : Timestamp) :
    s.1.onStop stop s.2 id = some
      ⟨{ record with
          status := if s.1.sawError then .failed else .completed
          summary := some ⟨s.1.seq - 1, none, s.1.elapsedMs stop, !s.1.sawError⟩
          completedAt := some stop }, events⟩ := by
  unfold onStop
  simp only [h.runId]
  cases s.1.sawError with
  | false =>
      simp only [MemoryRunLedger.completeRun, MemoryRunLedger.updateRunning, h.state, Bool.not_false,
        if_true]
      rw [if_neg (not_not_intro h.running)]
      exact Map.insert_self _ _ _
  | true =>
      simp only [MemoryRunLedger.failRun, MemoryRunLedger.updateRunning, h.state, Bool.not_true,
        if_neg Bool.false_ne_true]
      rw [if_neg (not_not_intro h.running)]
      exact Map.insert_self _ _ _

variable (specDigest : ContentDigest) (metadata : RunMetadata Value) (fresh : RunId)
  (start stop : Timestamp) (events : List Handled) (runs : MemoryRunLedger Value)

/-- The run of a session: the accepted events under the numbers they were handled with, and a summary
that counts every event. -/
theorem session_run : ∃ state, (new specDigest metadata).session fresh start stop events runs fresh
      = some state ∧ state.events = stored 1 events ∧
    (∃ summary, state.record.summary = some summary ∧ summary.totalEvents = events.length) ∧
    (state.record.status = .completed ↔ ∀ event ∈ events, event.1.kind.isError = false) := by
  rcases open_handleAll (open_onStart (new specDigest metadata) fresh start runs) events with
    ⟨hopen, hseq, herror⟩
  refine ⟨_, run_onStop hopen stop, rfl, ⟨_, rfl, ?_⟩, ?_⟩
  · have hfirst : ((new specDigest metadata).onStart fresh start runs).1.seq = 1 := rfl
    simp only [hseq, hfirst]
    omega
  · have hnone : ((new specDigest metadata).onStart fresh start runs).1.sawError = false := rfl
    rw [hnone, Bool.false_or] at herror
    simp only [herror]
    cases hany : events.any fun event => event.1.kind.isError with
    | false =>
        simpa [List.any_eq_false] using hany
    | true =>
        simpa [List.any_eq_true] using hany

/-- The summary and the ledger agree: the stored events are numbered from 1 without gaps, in the order in
which they were handled, the summary counts them, and the run is completed unless an error was handled. -/
def SummaryMatches (events : List Handled) (id : RunId) (runs : MemoryRunLedger Value) : Prop :=
  ∃ state summary, runs id = some state ∧ state.record.summary = some summary ∧
    state.events.map RunEvent.seq = List.range' 1 state.events.length ∧
    state.events.map (fun event => (event.kind, event.payload, event.timestamp)) =
      (accepted events).map
        (fun event => ((mapEvent event.1.kind).1, (mapEvent event.1.kind).2, event.1.timestamp)) ∧
    summary.totalEvents = state.events.length ∧
    (state.record.status = .completed ↔ ∀ event ∈ events, event.1.kind.isError = false)

/-- The summary matches the ledger exactly when the ledger refused no event. -/
theorem summaryMatches_iff :
    SummaryMatches events fresh ((new specDigest metadata).session fresh start stop events runs) ↔
      ∀ event ∈ events, event.2 = none := by
  rcases session_run specDigest metadata fresh start stop events runs with
    ⟨state, hrun, hstored, ⟨summary, hsummary, htotal⟩, hstatus⟩
  constructor
  · rintro ⟨state', summary', hrun', hsummary', -, -, htotal', -⟩
    rw [hrun] at hrun'
    cases hrun'
    rw [hsummary] at hsummary'
    cases hsummary'
    -- As many events are stored as were handled, so none was left out.
    have hlength : (accepted events).length = events.length := by
      rw [← length_stored 1, ← hstored, ← htotal', htotal]
    intro event hevent
    have hall := List.length_filter_eq_length_iff.1 hlength event hevent
    simpa using hall
  · intro h
    have hseq := seq_stored_of_accepted h 1
    have hlength : (stored 1 events).length = events.length := by
      simpa using congrArg List.length hseq
    refine ⟨state, summary, hrun, hsummary, ?_, ?_, ?_, hstatus⟩
    · rw [hstored, hseq, hlength]
    · rw [hstored]
      exact map_stored _ (fun _ _ _ => rfl) 1 events
    · rw [htotal, hstored, hlength]

/-- A graph that starts and completes, the ledger being away when it starts. -/
def unreachableOnce : List Handled :=
  [(⟨.graph (.started ⟨.str "g", trivial⟩ ⟨.str "entry", trivial⟩), 1⟩, some (.backend "connection lost")),
    (⟨.graph (.completed ⟨.null, trivial⟩ ⟨.null, trivial⟩), 2⟩, none)]

/-- One event is stored, with the number 2, and the summary counts two. -/
theorem summary_counts_refused :
    ¬ SummaryMatches unreachableOnce "run"
      ((new (.replicate 'a' (by decide)) ⟨none, "agent", ⟨.null, trivial⟩, .default⟩).session "run" 0 3
        unreachableOnce ∅) := by
  rintro ⟨state, summary, hrun, -, hseq, -⟩
  cases Option.some.inj hrun
  exact absurd hseq (by decide)

end LedgerHandler

end Domain
end Aivcs
