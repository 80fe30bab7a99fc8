import Aivcs.Domain.Event
import Aivcs.State.DynLedger

/-!
# Domain.Recording — what the recorder appends for an event

`GraphRunRecorder::record` puts the fields of the kind into the payload, so that they are kept in the
ledger.  It can do so only when the payload is an object: otherwise only the tag of the kind is left, and
that says everything of `graph_started` alone.
-/

namespace Aivcs
namespace Domain

open Lib State

def eventKindStr (kind : EventKind) : String :=
  ((kind.toValue.get? "type").bind Doc.asStr?).getD "unknown"

/-- The members of the serialised kind but `type`, inserted into the payload if it is an object. -/
def mergeKind (kind : EventKind) : Doc Number → Doc Number
  | .obj map =>
      -- A field of the kind replaces a member of its name.
      match kind.toValue with
      | .obj kindMap => .obj (Doc.setMembers (kindMap.filter fun m => m.1 ≠ "type") map)
      | _ => .obj map
  | payload => payload

theorem filter_toValue (kind : EventKind) :
    (("type", Doc.str kind.tag) :: kind.fields).filter (fun m => m.1 ≠ "type") = kind.fields := by
  rw [List.filter_cons_of_neg (by simp), List.filter_eq_self]
  intro m hm
  have hne : m.1 ≠ "type" := fun h => kind.type_not_mem_fields (h ▸ List.mem_map_of_mem hm)
  simpa using hne

theorem mergeKind_obj (kind : EventKind) (map : List (String × Doc Number)) :
    mergeKind kind (.obj map) = .obj (Doc.setMembers kind.fields map) := by
  simp only [mergeKind, EventKind.toValue]
  rw [filter_toValue]

theorem mergeKind_of_not_object (kind : EventKind) {payload : Doc Number}
    (h : payload.isObject = false) : mergeKind kind payload = payload := by
  cases payload with
  | obj map =>
      cases h
  | null | bool | num | str | arr =>
      rfl

@[simp] theorem isObject_mergeKind (kind : EventKind) (payload : Doc Number) :
    (mergeKind kind payload).isObject = payload.isObject := by
  cases payload with
  | obj map =>
      rw [mergeKind_obj]
      rfl
  | null | bool | num | str | arr =>
      rfl

theorem uniqueKeys_mergeKind (kind : EventKind) {payload : Doc Number} (h : payload.UniqueKeys) :
    (mergeKind kind payload).UniqueKeys := by
  cases payload with
  | obj map =>
      rw [mergeKind_obj]
      exact Doc.uniqueKeys_setMembers kind.uniqueKeys_fields h
  | null | bool | num | str | arr =>
      exact h

/-- The event that `GraphRunRecorder::record` appends. -/
def recorded (event : Event) : RunEvent Value where
  seq := event.seq
  kind := eventKindStr event.kind
  payload := ⟨mergeKind event.kind event.payload.doc, uniqueKeys_mergeKind _ event.payload.unique⟩
  timestamp := event.timestamp

/-! ## The recorder -/

namespace GraphRunRecorder

variable (runId : RunId) (now : Timestamp)

def start (specDigest : ContentDigest) (metadata : RunMetadata Value) :
    DynRunLedger Value → Except StorageError RunId × DynRunLedger Value :=
  DynRunLedger.createRun runId now specDigest metadata

def record (event : Event) : DynRunLedger Value → Except StorageError Unit × DynRunLedger Value :=
  DynRunLedger.appendEvent runId now (recorded event)

def finishOk (summary : RunSummary) :
    DynRunLedger Value → Except StorageError Unit × DynRunLedger Value :=
  DynRunLedger.completeRun runId now summary

def finishErr (summary : RunSummary) :
    DynRunLedger Value → Except StorageError Unit × DynRunLedger Value :=
  DynRunLedger.failRun runId now summary

end GraphRunRecorder

/-! ## What can be read back -/

theorem eventKindStr_eq (kind : EventKind) : eventKindStr kind = kind.tag := by
  simp [eventKindStr, EventKind.toValue, Doc.get?, Doc.asStr?]

/-- In an object, the fields of the kind are found and the other members are as they were. -/
theorem get?_mergeKind (kind : EventKind) {payload : Doc Number} (h : payload.isObject = true)
    (k : String) :
    (mergeKind kind payload).get? k = (kind.fields.lookup k).or (payload.get? k) := by
  cases payload with
  | obj map =>
      rw [mergeKind_obj]
      exact Doc.lookup_setMembers kind.fields_nodup k map
  | null | bool | num | str | arr =>
      cases h

theorem get?_mergeKind_field (kind : EventKind) {payload : Doc Number}
    (h : payload.isObject = true) {m : String × Doc Number} (hm : m ∈ kind.fields) :
    (mergeKind kind payload).get? m.1 = some m.2 := by
  have hfound : kind.fields.lookup m.1 = some m.2 := by
    rcases List.append_of_mem hm with ⟨l₁, l₂, hl⟩
    refine List.lookup_eq_some_iff.2 ⟨l₁, l₂, hl, ?_⟩
    intro m' hm'
    have hnodup := kind.fields_nodup
    rw [hl, List.map_append, List.map_cons, List.nodup_append] at hnodup
    have hne := hnodup.2.2 m'.1 (List.mem_map_of_mem hm') m.1 List.mem_cons_self
    simpa using Ne.symm hne
  rw [get?_mergeKind kind h, hfound, Option.some_or]

theorem get?_mergeKind_other (kind : EventKind) (payload : Doc Number) {k : String}
    (hk : k ∉ kind.fields.map Prod.fst) : (mergeKind kind payload).get? k = payload.get? k := by
  cases hobj : payload.isObject with
  | false =>
      rw [mergeKind_of_not_object kind hobj]
  | true =>
      have hnone : kind.fields.lookup k = none := by
        rw [List.lookup_eq_none_iff]
        intro m hm
        simpa using fun h : k = m.1 => hk (h ▸ List.mem_map_of_mem hm)
      rw [get?_mergeKind kind hobj, hnone, Option.none_or]

theorem read_recorded {event : Event}
    (h : event.payload.doc.isObject = true ∨ event.kind = .graphStarted) :
    EventKind.read (recorded event).kind (fun k => (recorded event).payload.doc.get? k) =
      some event.kind := by
  rw [recorded, eventKindStr_eq]
  refine EventKind.read_of_fields event.kind fun m hm => ?_
  rcases h with hobj | hkind
  · exact get?_mergeKind_field event.kind hobj hm
  · rw [hkind] at hm
    cases hm

theorem tag_eq_graph_started {kind : EventKind} (h : kind.tag = "graph_started") :
    kind = .graphStarted := by
  cases kind <;> simp [EventKind.tag] at h ⊢

/-- A kind with fields is not determined by its tag. -/
theorem exists_same_tag {kind : EventKind} (h : kind ≠ .graphStarted) :
    ∃ kind' : EventKind, kind'.tag = kind.tag ∧ kind' ≠ kind := by
  have hstr : ∀ s : String, ∃ s' : String, s' ≠ s := by
    intro s
    by_cases hs : s = ""
    · exact ⟨"a", by simp [hs]⟩
    · exact ⟨"", Ne.symm hs⟩
  cases kind with
  | graphStarted =>
      exact absurd rfl h
  | graphCompleted iterations durationMs =>
      exact ⟨.graphCompleted (iterations + 1) durationMs, rfl, by simp⟩
  | graphFailed error =>
      obtain ⟨s, hs⟩ := hstr error
      exact ⟨.graphFailed s, rfl, by simpa using hs⟩
  | nodeEntered nodeId iteration =>
      obtain ⟨s, hs⟩ := hstr nodeId
      exact ⟨.nodeEntered s iteration, rfl, by simpa using hs⟩
  | nodeExited nodeId nextNode durationMs =>
      obtain ⟨s, hs⟩ := hstr nodeId
      exact ⟨.nodeExited s nextNode durationMs, rfl, by simpa using hs⟩
  | nodeFailed nodeId error =>
      obtain ⟨s, hs⟩ := hstr nodeId
      exact ⟨.nodeFailed s error, rfl, by simpa using hs⟩
  | toolCalled toolName =>
      obtain ⟨s, hs⟩ := hstr toolName
      exact ⟨.toolCalled s, rfl, by simpa using hs⟩
  | toolReturned toolName =>
      obtain ⟨s, hs⟩ := hstr toolName
      exact ⟨.toolReturned s, rfl, by simpa using hs⟩
  | toolFailed toolName =>
      obtain ⟨s, hs⟩ := hstr toolName
      exact ⟨.toolFailed s, rfl, by simpa using hs⟩
  | checkpointSaved checkpointId nodeId =>
      obtain ⟨s, hs⟩ := hstr nodeId
      exact ⟨.checkpointSaved checkpointId s, rfl, by simpa using hs⟩
  | checkpointRestored checkpointId nodeId =>
      obtain ⟨s, hs⟩ := hstr nodeId
      exact ⟨.checkpointRestored checkpointId s, rfl, by simpa using hs⟩
  | checkpointDeleted checkpointId =>
      obtain ⟨s, hs⟩ := hstr checkpointId
      exact ⟨.checkpointDeleted s, rfl, by simpa using hs⟩
  | stateUpdated nodeId keysChanged =>
      obtain ⟨s, hs⟩ := hstr nodeId
      exact ⟨.stateUpdated s keysChanged, rfl, by simpa using hs⟩
  | messageAdded role contentLength =>
      obtain ⟨s, hs⟩ := hstr role
      exact ⟨.messageAdded s contentLength, rfl, by simpa using hs⟩
  | graphInterrupted reason nodeId =>
      obtain ⟨s, hs⟩ := hstr nodeId
      exact ⟨.graphInterrupted reason s, rfl, by simpa using hs⟩
  | nodeRetrying nodeId attempt delayMs =>
      obtain ⟨s, hs⟩ := hstr nodeId
      exact ⟨.nodeRetrying s attempt delayMs, rfl, by simpa using hs⟩

/-- The appended event determines the kind: no event of another kind is recorded with its tag and its
payload. -/
def DeterminesKind (event : Event) : Prop :=
  ∀ event' : Event, (recorded event').kind = (recorded event).kind →
    (recorded event').payload = (recorded event).payload → event'.kind = event.kind

theorem determinesKind_of_object {event : Event}
    (h : event.payload.doc.isObject = true ∨ event.kind = .graphStarted) : DeterminesKind event := by
  intro event' hkind hpayload
  have hread := read_recorded h
  -- The other event meets the condition too, so both kinds are read from the same record.
  have hcond : event'.payload.doc.isObject = true ∨ event'.kind = .graphStarted := by
    rcases h with hobj | hstarted
    · left
      have hsame := congrArg (fun v : Value => v.doc.isObject) hpayload
      simp only [recorded, isObject_mergeKind] at hsame
      rw [hsame, hobj]
    · right
      refine tag_eq_graph_started ?_
      have htag : event'.kind.tag = event.kind.tag := by
        simpa [recorded, eventKindStr_eq] using hkind
      rw [htag, hstarted]
      rfl
  rw [← hkind, ← hpayload, read_recorded hcond] at hread
  exact Option.some.inj hread

theorem object_of_determinesKind {event : Event} (h : DeterminesKind event) :
    event.payload.doc.isObject = true ∨ event.kind = .graphStarted := by
  by_contra hnot
  rw [not_or, Bool.not_eq_true] at hnot
  -- Outside an object only the tag is left of the kind.
  obtain ⟨kind', htag, hne⟩ := exists_same_tag hnot.2
  refine hne (h { event with kind := kind' } ?_ ?_)
  · simp [recorded, eventKindStr_eq, htag]
  · simp [recorded, mergeKind_of_not_object _ hnot.1]

/-- The appended event determines the kind, which can be read back from it, and keeps every other member of
the payload, if and only if the payload is an object or the kind has no fields. -/
theorem record_loses_nothing_iff (event : Event) :
    (DeterminesKind event ∧
        EventKind.read (recorded event).kind (fun k => (recorded event).payload.doc.get? k) =
          some event.kind ∧
        ∀ k, k ∉ event.kind.fields.map Prod.fst →
          (recorded event).payload.doc.get? k = event.payload.doc.get? k) ↔
      event.payload.doc.isObject = true ∨ event.kind = .graphStarted := by
  constructor
  · rintro ⟨hdet, _⟩
    exact object_of_determinesKind hdet
  · intro h
    refine ⟨determinesKind_of_object h, read_recorded h, ?_⟩
    intro k hk
    exact get?_mergeKind_other event.kind event.payload.doc hk

/-- A call of a tool with the payload `null`. -/
def calledWithNull (toolName : String) : Event :=
  ⟨"run", 1, 0, .toolCalled toolName, .null, trivial⟩

/-- Calls of two tools with the payload `null` leave the same event. -/
theorem record_forgets_tool_name : ¬ DeterminesKind (calledWithNull "cargo_fmt") := by
  intro h
  have hsame : EventKind.toolCalled "cargo_test" = .toolCalled "cargo_fmt" :=
    h (calledWithNull "cargo_test") rfl rfl
  exact absurd hsame (by decide)

end Domain
end Aivcs
