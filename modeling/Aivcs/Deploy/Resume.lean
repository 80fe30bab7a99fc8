import Aivcs.Deploy.DeployByDigest
import Aivcs.Domain.Recording
import Aivcs.Lib.Splits

/-!
# Deploy.Resume — where a recorded run can be resumed

`find_resume_point` looks for the last `checkpoint_saved` event of a run and takes the identifiers of the
checkpoint from its payload.  A recorder may have been refused events, or not know of some it has recorded;
whatever it was answered, `resume_recorded` says where the run is resumed.
-/

namespace Aivcs
namespace Deploy

open Lib State Domain

/-- `CHECKPOINT_SAVED_KIND`. -/
def checkpointSavedKind : String := "checkpoint_saved"

structure ResumePoint where
  checkpointId : String
  checkpointSeq : Nat
  nodeId : String
  eventsBefore : List (RunEvent Value)

/-- A string in the payload of a checkpoint event. -/
def checkpointField (event : RunEvent Value) (field : String) : Except AivcsError String :=
  match (event.payload.doc.get? field).bind Doc.asStr? with
  | some s => .ok s
  | none =>
      .error (.storageError ("checkpoint_saved event at seq " ++ toString event.seq ++ " missing '" ++ field ++
        "' field"))

/-- The point at the last checkpoint of the events. -/
def lastCheckpoint (events : List (RunEvent Value)) : Except AivcsError (Option ResumePoint) :=
  match rposition (fun e => e.kind = checkpointSavedKind) events with
  | none => .ok none
  | some pos => do
      let checkpoint := events.get pos
      let checkpointId ← checkpointField checkpoint "checkpoint_id"
      let nodeId ← checkpointField checkpoint "node_id"
      return some ⟨checkpointId, checkpoint.seq, nodeId, events.take (pos + 1)⟩

def findResumePoint (runId : RunId) (ledger : DynRunLedger Value) :
    Except AivcsError (Option ResumePoint) × DynRunLedger Value :=
  match ledger.askEvents runId with
  | (.error e, ledger) => (.error (storageErr e), ledger)
  | (.ok events, ledger) => (lastCheckpoint events, ledger)

/-! ## Recording -/

/-- A call of the recorder, at a time of the ledger's clock. -/
structure RecordCall where
  now : Timestamp
  event : Event

section Recording

variable (rid : RunId)

/-- The recorder goes on whatever it is answered. -/
def recordStep (ledger : DynRunLedger Value) (call : RecordCall) : DynRunLedger Value :=
  (GraphRunRecorder.record rid call.now call.event ledger).2

/-- The event as the ledger keeps it. -/
def RecordCall.kept (timeOf : Timestamp → RunEvent Value → Timestamp) (call : RecordCall) :
    RunEvent Value :=
  (recorded call.event).stamp (timeOf call.now (recorded call.event))

variable {rid}

/-- Some of the calls are kept, in their order, and among them all that were answered with success. -/
theorem recordAll_outcome {record : RunRecord Value} (hrunning : record.status = .running)
    {ledger : DynRunLedger Value} (hholds : ledger.Holds rid ⟨record, []⟩) (calls : List RecordCall)
    (hseq : (calls.map fun c => c.event.seq).Nodup) :
    ∃ kept : List RecordCall, kept.Sublist calls ∧
      ForallSplits (fun pre c => (GraphRunRecorder.record rid c.now c.event
        (after (recordStep rid) ledger pre)).1 = .ok () → c ∈ kept) calls ∧
      (after (recordStep rid) ledger calls).Holds rid ⟨record, kept.map (RecordCall.kept ledger.timeOf)⟩ ∧
      (after (recordStep rid) ledger calls).timeOf = ledger.timeOf := by
  -- The calls are taken away from the end: the last one meets the ledger as the others have left it.
  induction calls using List.reverseRecOn with
  | nil => exact ⟨[], List.Sublist.refl _, forallSplits_nil, hholds, rfl⟩
  | append_singleton calls call ih =>
      rw [List.map_append, List.nodup_append] at hseq
      obtain ⟨hbefore, -, hapart⟩ := hseq
      obtain ⟨kept, hsub, hacked, hheld, htime⟩ := ih hbefore
      rw [after_append, after_cons, after_nil]
      generalize hl : after (recordStep rid) ledger calls = l at hheld htime
      have hnew : ∀ e ∈ kept.map (RecordCall.kept ledger.timeOf), e.seq ≠ (recorded call.event).seq := by
        intro e he
        obtain ⟨c, hc, rfl⟩ := List.mem_map.1 he
        exact hapart c.event.seq (List.mem_map_of_mem (hsub.subset hc)) call.event.seq (by simp)
      have htime' : (recordStep rid l call).timeOf = ledger.timeOf :=
        (DynRunLedger.timeOf_appendEvent l call.now (recorded call.event)).trans htime
      have hstamp : RecordCall.kept ledger.timeOf call =
          (recorded call.event).stamp (l.timeOf call.now (recorded call.event)) := by
        rw [htime]
        rfl
      obtain ⟨hstate, -⟩ := DynRunLedger.appendEvent_outcome hheld hrunning call.now hnew
      have hweaken : ∀ kept' : List RecordCall, kept.Sublist kept' →
          ForallSplits (fun pre c => (GraphRunRecorder.record rid c.now c.event
            (after (recordStep rid) ledger pre)).1 = .ok () → c ∈ kept') calls :=
        fun kept' hkept pre c post hsplit hok => hkept.subset (hacked pre c post hsplit hok)
      have happended : (recordStep rid l call).Holds rid
            ⟨record, kept.map (RecordCall.kept ledger.timeOf) ++ [RecordCall.kept ledger.timeOf call]⟩ →
          ∃ kept' : List RecordCall, kept'.Sublist (calls ++ [call]) ∧
            ForallSplits (fun pre c => (GraphRunRecorder.record rid c.now c.event
              (after (recordStep rid) ledger pre)).1 = .ok () → c ∈ kept') (calls ++ [call]) ∧
            (recordStep rid l call).Holds rid ⟨record, kept'.map (RecordCall.kept ledger.timeOf)⟩ ∧
            (recordStep rid l call).timeOf = ledger.timeOf := by
        intro hnow
        refine ⟨kept ++ [call], hsub.append_right [call], ?_, ?_, htime'⟩
        · refine forallSplits_concat.2 ⟨hweaken _ (List.sublist_append_left _ _), fun _ => ?_⟩
          exact List.mem_append_right _ List.mem_cons_self
        · simpa only [List.map_append, List.map_cons, List.map_nil] using hnow
      cases hanswer : (GraphRunRecorder.record rid call.now call.event l).1 with
      | ok u =>
          -- The ledger has said that the event is there.
          refine happended ?_
          rw [hstamp]
          exact DynRunLedger.appendEvent_stamped hheld hrunning hnew (Prod.ext hanswer rfl)
      | error e =>
          rcases hstate with hstate | hstate
          · refine ⟨kept, hsub.trans (List.sublist_append_left _ _), ?_, hstate, htime'⟩
            refine forallSplits_concat.2 ⟨hweaken kept (List.Sublist.refl _), fun hok => ?_⟩
            rw [hl, hanswer] at hok
            cases hok
          · exact happended (hstamp ▸ hstate)

end Recording

/-! ## Resuming -/

/-- The calls in the order of the numbers of their events. -/
def inOrder (calls : List RecordCall) : List RecordCall :=
  calls.insertionSort fun c d => c.event.seq ≤ d.event.seq

/-- What a point says about recorded calls, given in their order: without one there is no checkpoint; with one
it is that of the last checkpoint, and its events are those up to it. -/
def ResumesAt (timeOf : Timestamp → RunEvent Value → Timestamp) (calls : List RecordCall) :
    Option ResumePoint → Prop
  | none => ∀ c ∈ calls, c.event.kind.tag ≠ checkpointSavedKind
  | some point =>
      ∃ before c later, calls = before ++ c :: later ∧
        c.event.kind = .checkpointSaved point.checkpointId point.nodeId ∧
        point.checkpointSeq = c.event.seq ∧
        point.eventsBefore = (before ++ [c]).map (RecordCall.kept timeOf) ∧
        ∀ d ∈ later, d.event.kind.tag ≠ checkpointSavedKind ∧ c.event.seq < d.event.seq

section Resuming

variable {timeOf : Timestamp → RunEvent Value → Timestamp}

theorem RecordCall.kind_kept (c : RecordCall) : (c.kept timeOf).kind = c.event.kind.tag :=
  eventKindStr_eq c.event.kind

theorem exists_of_tag {kind : EventKind} (h : kind.tag = checkpointSavedKind) :
    ∃ checkpointId nodeId, kind = .checkpointSaved checkpointId nodeId := by
  cases kind with
  | checkpointSaved checkpointId nodeId => exact ⟨checkpointId, nodeId, rfl⟩
  | _ => simp [EventKind.tag, checkpointSavedKind] at h

/-- A recorded field of a checkpoint is found. -/
theorem checkpointField_kept {c : RecordCall} (hobj : c.event.payload.doc.isObject = true)
    {field s : String} (hfield : (field, Doc.str s) ∈ c.event.kind.fields) :
    checkpointField (c.kept timeOf) field = .ok s := by
  have hget : (c.kept timeOf).payload.doc.get? field = some (.str s) :=
    get?_mergeKind_field c.event.kind hobj hfield
  simp only [checkpointField, hget, Option.bind_some, Doc.asStr?]

variable (timeOf) in
theorem lastCheckpoint_kept {calls : List RecordCall}
    (hobj : ∀ c ∈ calls, c.event.kind.tag = checkpointSavedKind → c.event.payload.doc.isObject = true)
    (hsorted : calls.Pairwise fun c d => c.event.seq < d.event.seq) :
    ∃ found, lastCheckpoint (calls.map (RecordCall.kept timeOf)) = .ok found ∧
      ResumesAt timeOf calls found := by
  unfold lastCheckpoint
  cases hpos : rposition (fun e => e.kind = checkpointSavedKind) (calls.map (RecordCall.kept timeOf)) with
  | none =>
      refine ⟨none, rfl, ?_⟩
      intro c hc
      have hnot := rposition_eq_none.1 hpos (c.kept timeOf) (List.mem_map_of_mem hc)
      simpa only [decide_eq_false_iff_not, RecordCall.kind_kept] using hnot
  | some pos =>
      obtain ⟨hsplit, hkind, hlater⟩ := rposition_eq_some hpos
      -- The cut of the events is one of the calls.
      obtain ⟨before, rest, hcalls, hbefore, hrest⟩ := List.map_eq_append_iff.1 hsplit
      obtain ⟨c, later, rfl, hc, hdrop⟩ := List.map_eq_cons_iff.1 hrest
      simp only [decide_eq_true_eq, ← hc, RecordCall.kind_kept] at hkind
      obtain ⟨checkpointId, nodeId, hc'⟩ := exists_of_tag hkind
      have hmem : c ∈ calls := by simp [hcalls]
      have hid : checkpointField (c.kept timeOf) "checkpoint_id" = .ok checkpointId :=
        checkpointField_kept (hobj c hmem hkind) (by simp [hc', EventKind.fields])
      have hnode : checkpointField (c.kept timeOf) "node_id" = .ok nodeId :=
        checkpointField_kept (hobj c hmem hkind) (by simp [hc', EventKind.fields])
      have htake : (calls.map (RecordCall.kept timeOf)).take (pos + 1) =
          (before ++ [c]).map (RecordCall.kept timeOf) := by
        rw [List.take_succ_eq_append_getElem pos.isLt, ← hbefore, ← List.get_eq_getElem, ← hc]
        simp only [List.map_append, List.map_cons, List.map_nil]
      simp only [← hc, hid, hnode, htake]
      refine ⟨_, rfl, before, c, later, hcalls, hc', rfl, rfl, ?_⟩
      intro d hd
      constructor
      · have hnot := hlater (d.kept timeOf) (hdrop ▸ List.mem_map_of_mem hd)
        simpa only [decide_eq_false_iff_not, RecordCall.kind_kept] using hnot
      · rw [hcalls, List.pairwise_append, List.pairwise_cons] at hsorted
        exact hsorted.2.1.1 d hd

/-- The ledger sorts the events as the calls are ordered. -/
theorem insertionSort_kept (calls : List RecordCall) :
    (calls.map (RecordCall.kept timeOf)).insertionSort (fun a b => a.seq ≤ b.seq) =
      (inOrder calls).map (RecordCall.kept timeOf) :=
  (List.map_insertionSort (fun c d : RecordCall => c.event.seq ≤ d.event.seq)
    (fun a b : RunEvent Value => a.seq ≤ b.seq) (RecordCall.kept timeOf) calls fun _ _ _ _ => Iff.rfl).symm

/-- Events with numbers of their own, recorded one after the other in a running run without events; checkpoints
have objects as payloads.  Whatever the recorder is answered, the ledger holds the run with some of them, all
the acknowledged ones included, and a question for the resume point that the ledger answers gives the last
checkpoint among the kept events, in the order of their numbers, with the events up to it; there is no point
only if no checkpoint was kept. -/
theorem resume_recorded {rid : RunId} {record : RunRecord Value} (hrunning : record.status = .running)
    {ledger : DynRunLedger Value} (hholds : ledger.Holds rid ⟨record, []⟩) (calls : List RecordCall)
    (hseq : (calls.map fun c => c.event.seq).Nodup)
    (hobj : ∀ c ∈ calls, c.event.kind.tag = checkpointSavedKind → c.event.payload.doc.isObject = true) :
    ∃ kept : List RecordCall, kept.Sublist calls ∧
      ForallSplits (fun pre c => (GraphRunRecorder.record rid c.now c.event
        (after (recordStep rid) ledger pre)).1 = .ok () → c ∈ kept) calls ∧
      (after (recordStep rid) ledger calls).Holds rid ⟨record, kept.map (RecordCall.kept ledger.timeOf)⟩ ∧
      ∃ found, ResumesAt ledger.timeOf (inOrder kept) found ∧
        ((findResumePoint rid (after (recordStep rid) ledger calls)).1 = .ok found ∨
          ∃ e, ((after (recordStep rid) ledger calls).askEvents rid).1 = .error e ∧
            (findResumePoint rid (after (recordStep rid) ledger calls)).1 = .error (storageErr e)) := by
  obtain ⟨kept, hsub, hacked, hheld, -⟩ := recordAll_outcome hrunning hholds calls hseq
  refine ⟨kept, hsub, hacked, hheld, ?_⟩
  -- Sorted by distinct sequence numbers, what is kept ascends.
  have hnodup : ((inOrder kept).map fun c => c.event.seq).Nodup :=
    ((List.perm_insertionSort _ kept).map _).nodup_iff.2 (hseq.sublist (hsub.map _))
  have hordered : (inOrder kept).Pairwise fun c d => c.event.seq < d.event.seq := by
    have hle : (inOrder kept).Pairwise fun c d => c.event.seq ≤ d.event.seq :=
      List.pairwise_insertionSort _ kept
    refine (hle.and (List.pairwise_map.1 hnodup)).imp ?_
    rintro c d ⟨hcd, hne⟩
    omega
  have hobj' : ∀ c ∈ inOrder kept, c.event.kind.tag = checkpointSavedKind →
      c.event.payload.doc.isObject = true :=
    fun c hc => hobj c (hsub.subset ((List.mem_insertionSort _).1 hc))
  obtain ⟨found, hfound, hresumes⟩ := lastCheckpoint_kept ledger.timeOf hobj' hordered
  refine ⟨found, hresumes, ?_⟩
  -- The ledger answers with these events, if at all.
  have hevents := DynRunLedger.getEvents_of_holds hheld
  rw [insertionSort_kept] at hevents
  obtain ⟨-, hanswer⟩ := DynRunLedger.askEvents_spec (after (recordStep rid) ledger calls) rid
  unfold findResumePoint
  cases hask : (after (recordStep rid) ledger calls).askEvents rid with
  | mk answer ledger' =>
      rw [hask] at hanswer
      cases answer with
      | error e => exact Or.inr ⟨e, rfl, rfl⟩
      | ok events =>
          left
          have hsorted := (hanswer events rfl).symm.trans hevents
          cases hsorted
          exact hfound

end Resuming

theorem uniqueKeys_empty : (Doc.obj [] : Doc Number).UniqueKeys := by
  simp

/-- A checkpoint, the end of the run, and its beginning at last. -/
def lateCalls : List RecordCall :=
  [⟨5, "run", 2, 0, .checkpointSaved "cp" "node", ⟨.obj [], uniqueKeys_empty⟩⟩,
    ⟨6, "run", 3, 0, .graphCompleted 1 9, .null, trivial⟩, ⟨7, "run", 1, 0, .graphStarted, .null, trivial⟩]

def begunRecord : RunRecord Value :=
  ⟨"run", plannerDigest, ⟨none, "planner", ⟨.null, trivial⟩, EvaluationMetadata.default⟩, .running, none, 4,
    none⟩

def begunRun : DynRunLedger Value :=
  .memory (Map.insert ∅ "run" ⟨begunRecord, []⟩)

theorem holds_begunRun : begunRun.Holds "run" ⟨begunRecord, []⟩ :=
  Map.insert_self ∅ "run" _

theorem resume_recorded_lateCalls :
    ∃ kept found, kept.Sublist lateCalls ∧
      (after (recordStep "run") begunRun lateCalls).Holds "run"
        ⟨begunRecord, kept.map (RecordCall.kept begunRun.timeOf)⟩ ∧
      ResumesAt begunRun.timeOf (inOrder kept) found ∧
      (findResumePoint "run" (after (recordStep "run") begunRun lateCalls)).1 = .ok found := by
  have hrunning : begunRecord.status = .running := rfl
  obtain ⟨kept, hsub, -, hheld, found, hresumes, hanswer⟩ :=
    resume_recorded hrunning holds_begunRun lateCalls (by decide) (by decide)
  refine ⟨kept, found, hsub, hheld, hresumes, hanswer.resolve_right ?_⟩
  rintro ⟨e, he, -⟩
  cases he

end Deploy
end Aivcs
