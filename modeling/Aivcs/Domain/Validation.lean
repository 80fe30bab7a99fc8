import Aivcs.Domain.EventAdapter
import Aivcs.Domain.Recording

/-!
# Domain.Validation — the events that the validator accepts

`validate_run_event` knows the structured kinds and, for each, the members its payload must have.  Two
producers write such events: the adapter of the graph engine and the recorder of domain events.  What the
tables ask for is there in all they produce, except for the execution control events of the adapter, whose
kind is in no table, and for `graph_started` of the recorder, which has no members of its own.
-/

namespace Aivcs
namespace Domain

open Lib State

inductive ValidationError where
  | unknownEventKind (kind : String)
  | missingPayloadField (kind field : String)
  | emptyKind
  deriving DecidableEq

/-- The text `Display` gives. -/
def ValidationError.toString : ValidationError → String
  | .unknownEventKind kind => "unknown event kind: " ++ kind
  | .missingPayloadField kind field =>
      "event kind " ++ kind ++ " missing required payload field: " ++ field
  | .emptyKind => "event kind must not be empty"

def knownEventKinds : List String :=
  ["graph_started", "graph_completed", "graph_failed", "graph_interrupted", "node_entered",
    "node_exited", "node_failed", "node_retrying", "tool_called", "tool_returned", "tool_failed",
    "checkpoint_saved", "checkpoint_restored", "checkpoint_deleted", "state_updated", "message_added"]

def requiredPayloadFields : List (String × List String) :=
  [("graph_started", ["graph_name", "entry_point"]),
    ("graph_completed", ["iterations", "duration_ms"]),
    ("graph_failed", ["error"]),
    ("graph_interrupted", ["reason", "node_id"]),
    ("node_entered", ["node_id", "iteration"]),
    ("node_exited", ["node_id"]),
    ("node_failed", ["node_id", "error"]),
    ("node_retrying", ["node_id", "attempt"]),
    ("tool_called", ["tool_name"]),
    ("tool_returned", ["tool_name"]),
    ("tool_failed", ["tool_name"]),
    ("checkpoint_saved", ["checkpoint_id", "node_id"]),
    ("checkpoint_restored", ["checkpoint_id", "node_id"]),
    ("checkpoint_deleted", ["checkpoint_id"]),
    ("state_updated", ["node_id"]),
    ("message_added", ["role"])]

/-- The loop over the required members. -/
def checkFields (event : RunEvent Value) : List String → Except ValidationError Unit
  | [] => .ok ()
  | field :: fields =>
      if (event.payload.doc.get? field).isNone then
        .error (.missingPayloadField event.kind field)
      else
        checkFields event fields

def validateRunEvent (event : RunEvent Value) : Except ValidationError Unit :=
  if event.kind = "" then .error .emptyKind
  -- Custom events are not looked into.
  else if "Custom:".toList.isPrefixOf event.kind.toList then .ok ()
  else if ¬ knownEventKinds.contains event.kind then .error (.unknownEventKind event.kind)
  else
    match requiredPayloadFields.lookup event.kind with
    | none => .ok ()
    | some required => checkFields event required

/-! ## What is accepted -/

def Accepted (event : RunEvent Value) : Prop :=
  validateRunEvent event = .ok ()

/-- The two tables name the same kinds. -/
theorem map_fst_requiredPayloadFields : requiredPayloadFields.map Prod.fst = knownEventKinds := rfl

theorem checkFields_eq_ok_iff {event : RunEvent Value} {fields : List String} :
    checkFields event fields = .ok () ↔ ∀ field ∈ fields, (event.payload.doc.get? field).isSome := by
  induction fields with
  | nil =>
      simp [checkFields]
  | cons field fields ih =>
      cases hfield : event.payload.doc.get? field with
      | none => simp [checkFields, hfield]
      | some v => simp [checkFields, hfield, ih]

theorem accepted_custom (seq : Nat) (name : String) (payload : Value) (time : Timestamp) :
    Accepted ⟨seq, "Custom:" ++ name, payload, time⟩ := by
  have hfront : "Custom:".toList.isPrefixOf ("Custom:" ++ name).toList = true := by
    rw [String.toList_append]
    exact List.isPrefixOf_iff_prefix.2 (List.prefix_append _ _)
  have hne : "Custom:" ++ name ≠ "" := by
    intro h
    have hlist := congrArg String.toList h
    rw [String.toList_append] at hlist
    cases hlist
  unfold Accepted validateRunEvent
  rw [if_neg hne, if_pos hfront]

/-- A structured kind: its payload has the members asked for. -/
theorem accepted_iff {event : RunEvent Value} {required : List String}
    (hlookup : requiredPayloadFields.lookup event.kind = some required) :
    Accepted event ↔ ∀ field ∈ required, (event.payload.doc.get? field).isSome := by
  have hknown : event.kind ∈ knownEventKinds := by
    rcases List.lookup_eq_some_iff.1 hlookup with ⟨before, after, htable, -⟩
    rw [← map_fst_requiredPayloadFields, htable]
    simp
  -- No structured kind is empty or marked as custom.
  have hplain : ∀ kind ∈ knownEventKinds,
      kind ≠ "" ∧ "Custom:".toList.isPrefixOf kind.toList = false := by
    decide
  rcases hplain _ hknown with ⟨hne, hcustom⟩
  unfold Accepted validateRunEvent
  have hnot : ¬ "Custom:".toList.isPrefixOf event.kind.toList = true := by
    rw [hcustom]
    exact Bool.false_ne_true
  rw [if_neg hne, if_neg hnot, if_neg (by simpa using hknown), hlookup]
  exact checkFields_eq_ok_iff

/-- A kind that is in no table and is not marked as custom. -/
theorem validateRunEvent_unknown {event : RunEvent Value} {kind : String} (hkind : event.kind = kind)
    (hne : kind ≠ "") (hcustom : "Custom:".toList.isPrefixOf kind.toList = false)
    (hknown : kind ∉ knownEventKinds) : validateRunEvent event = .error (.unknownEventKind kind) := by
  subst hkind
  have hnot : ¬ "Custom:".toList.isPrefixOf event.kind.toList = true := by
    rw [hcustom]
    exact Bool.false_ne_true
  unfold validateRunEvent
  rw [if_neg hne, if_neg hnot, if_pos (by simpa using hknown)]

/-! ## The adapter -/

theorem isSome_get?_object {members : List (String × Value)} (nodup : (members.map Prod.fst).Nodup)
    {field : String} (h : field ∈ members.map Prod.fst) :
    ((object members nodup).doc.get? field).isSome := by
  simp only [object, Doc.get?]
  rw [List.lookup_isSome_iff]
  rcases List.mem_map.1 h with ⟨member, hmember, rfl⟩
  exact ⟨(member.1, member.2.doc), List.mem_map.2 ⟨member, hmember, rfl⟩, by simp⟩

/-- An object that has every member asked for. -/
theorem accepted_object {seq : Nat} {kind : String} {time : Timestamp}
    {members : List (String × Value)} {required : List String}
    (nodup : (members.map Prod.fst).Nodup) (hlookup : requiredPayloadFields.lookup kind = some required)
    (hsub : required ⊆ members.map Prod.fst) : Accepted ⟨seq, kind, object members nodup, time⟩ :=
  (accepted_iff hlookup).2 fun _ hfield => isSome_get?_object nodup (hsub hfield)

theorem accepted_adapted_iff (seq : Nat) (event : BusEvent) :
    Accepted (adapted seq event) ↔
      (∀ ec, event.kind ≠ .executionControl ec) ∧ event.kind ≠ .other := by
  rcases event with ⟨kind, time⟩
  cases kind with
  | graph g =>
      refine iff_of_true ?_ (by simp)
      cases g with
      | started => exact accepted_object (by simp) (by rfl) (by simp)
      | completed => exact accepted_object (by simp) (by rfl) (by simp)
      | error => exact accepted_object (by simp) (by rfl) (by simp)
      | interrupted => exact accepted_object (by simp) (by rfl) (by simp)
  | node n =>
      refine iff_of_true ?_ (by simp)
      cases n with
      | entered => exact accepted_object (by simp) (by rfl) (by simp)
      | exited => exact accepted_object (by simp) (by rfl) (by simp)
      | error => exact accepted_object (by simp) (by rfl) (by simp)
      | retrying => exact accepted_object (by simp) (by rfl) (by simp)
  | checkpoint c =>
      refine iff_of_true ?_ (by simp)
      cases c with
      | saved => exact accepted_object (by simp) (by rfl) (by simp)
      | restored => exact accepted_object (by simp) (by rfl) (by simp)
      | deleted => exact accepted_object (by simp) (by rfl) (by simp)
  | state s =>
      refine iff_of_true ?_ (by simp)
      cases s with
      | updated => exact accepted_object (by simp) (by rfl) (by simp)
      | messageAdded => exact accepted_object (by simp) (by rfl) (by simp)
  | custom name payload =>
      exact iff_of_true (accepted_custom seq name payload time) (by simp)
  | executionControl ec =>
      refine iff_of_false (fun h => ?_) (by simp)
      have hkind : (adapted seq ⟨.executionControl ec, time⟩).kind = "execution_control" := rfl
      have herror := validateRunEvent_unknown hkind (by decide) (by decide) (by decide)
      exact absurd (herror.symm.trans h) (by simp)
  | other =>
      refine iff_of_false (fun h => ?_) (by simp)
      have hkind : (adapted seq ⟨.other, time⟩).kind = "unknown" := rfl
      have herror := validateRunEvent_unknown hkind (by decide) (by decide) (by decide)
      exact absurd (herror.symm.trans h) (by simp)

/-! ## The recorder -/

/-- A domain kind other than `graph_started` has fields for all that is asked of it. -/
theorem lookup_tag {kind : EventKind} (h : kind ≠ .graphStarted) :
    ∃ required, requiredPayloadFields.lookup kind.tag = some required ∧
      required ⊆ kind.fields.map Prod.fst := by
  cases kind with
  | graphStarted => exact absurd rfl h
  | graphCompleted => exact ⟨_, rfl, by simp [EventKind.fields]⟩
  | graphFailed => exact ⟨_, rfl, by simp [EventKind.fields]⟩
  | nodeEntered => exact ⟨_, rfl, by simp [EventKind.fields]⟩
  | nodeExited => exact ⟨_, rfl, by simp [EventKind.fields]⟩
  | nodeFailed => exact ⟨_, rfl, by simp [EventKind.fields]⟩
  | toolCalled => exact ⟨_, rfl, by simp [EventKind.fields]⟩
  | toolReturned => exact ⟨_, rfl, by simp [EventKind.fields]⟩
  | toolFailed => exact ⟨_, rfl, by simp [EventKind.fields]⟩
  | checkpointSaved => exact ⟨_, rfl, by simp [EventKind.fields]⟩
  | checkpointRestored => exact ⟨_, rfl, by simp [EventKind.fields]⟩
  | checkpointDeleted => exact ⟨_, rfl, by simp [EventKind.fields]⟩
  | stateUpdated => exact ⟨_, rfl, by simp [EventKind.fields]⟩
  | messageAdded => exact ⟨_, rfl, by simp [EventKind.fields]⟩
  | graphInterrupted => exact ⟨_, rfl, by simp [EventKind.fields]⟩
  | nodeRetrying => exact ⟨_, rfl, by simp [EventKind.fields]⟩

theorem accepted_recorded_iff {event : Event} (hobj : event.payload.doc.isObject = true) :
    Accepted (recorded event) ↔ (event.kind = .graphStarted →
      (event.payload.doc.get? "graph_name").isSome ∧
        (event.payload.doc.get? "entry_point").isSome) := by
  by_cases hstarted : event.kind = .graphStarted
  · have htag : (recorded event).kind = "graph_started" := by
      simp [recorded, eventKindStr_eq, hstarted, EventKind.tag]
    have hpayload : ∀ field,
        (recorded event).payload.doc.get? field = event.payload.doc.get? field := by
      intro field
      exact get?_mergeKind_other event.kind event.payload.doc (by simp [hstarted, EventKind.fields])
    have hlookup : requiredPayloadFields.lookup (recorded event).kind
        = some ["graph_name", "entry_point"] := by
      rw [htag]
      rfl
    rw [accepted_iff hlookup]
    simp [hstarted, hpayload]
  · refine iff_of_true ?_ (fun h => absurd h hstarted)
    rcases lookup_tag hstarted with ⟨required, htag, hsub⟩
    have hlookup : requiredPayloadFields.lookup (recorded event).kind = some required := by
      rw [recorded, eventKindStr_eq, htag]
    refine (accepted_iff hlookup).2 fun field hfield => ?_
    rcases List.mem_map.1 (hsub hfield) with ⟨member, hmember, rfl⟩
    have hfound := get?_mergeKind_field event.kind hobj hmember
    exact Option.isSome_iff_exists.2 ⟨_, hfound⟩

/-- The validator accepts what the adapter maps, execution control and variants it does not list left out,
and what the recorder appends, unless it is a `graph_started` whose payload does not name the graph and its
entry point. -/
theorem producers_accepted_iff (seq : Nat) (busEvent : BusEvent) (event : Event)
    (hobj : event.payload.doc.isObject = true) :
    (Accepted (adapted seq busEvent) ↔
        (∀ ec, busEvent.kind ≠ .executionControl ec) ∧ busEvent.kind ≠ .other) ∧
      (Accepted (recorded event) ↔ (event.kind = .graphStarted →
        (event.payload.doc.get? "graph_name").isSome ∧
          (event.payload.doc.get? "entry_point").isSome)) :=
  ⟨accepted_adapted_iff seq busEvent, accepted_recorded_iff hobj⟩

def emptyObject : Value := object [] List.nodup_nil

/-- A graph is started, with nothing in the payload. -/
def startedWithoutName : Event :=
  ⟨"run", 1, 0, .graphStarted, emptyObject⟩

/-- What the validator says of an execution control event and of a start recorded with an empty payload. -/
theorem producers_rejected :
    validateRunEvent (adapted 1 ⟨.executionControl (some emptyObject), 0⟩)
        = .error (.unknownEventKind "execution_control") ∧
      validateRunEvent (recorded startedWithoutName)
        = .error (.missingPayloadField "graph_started" "graph_name") := by
  refine ⟨validateRunEvent_unknown rfl (by decide) (by decide) (by decide), ?_⟩
  decide +kernel

theorem producers_accepted_startedWithoutName :
    (Accepted (adapted 1 ⟨.custom "x" emptyObject, 0⟩) ↔
        (∀ ec, BusEventKind.custom "x" emptyObject ≠ .executionControl ec) ∧
          BusEventKind.custom "x" emptyObject ≠ .other) ∧
      (Accepted (recorded startedWithoutName) ↔
        (startedWithoutName.kind = .graphStarted →
          (startedWithoutName.payload.doc.get? "graph_name").isSome ∧
            (startedWithoutName.payload.doc.get? "entry_point").isSome)) :=
  producers_accepted_iff 1 ⟨.custom "x" emptyObject, 0⟩ startedWithoutName rfl

end Domain
end Aivcs
