import Aivcs.Domain.CanonicalJson
import Aivcs.Lib.Splits
import Aivcs.State.DynLedger
import Aivcs.State.ReleaseRegistry

/-!
# Deploy.DeployByDigest — promoting, deploying and replaying

`ReleaseRegistryApi` promotes agent specifications, `deploy_by_digest` looks the current release of an agent
up, records a run of three events for its digest and replays the run.  Both work on either backend; the
connection to the database may refuse a statement or lose its answer at any point.

* `deployByDigest_spec` — what a deployment leaves behind and reports, however it ends;
* `replayDigest_deploy_iff` — when two deployments have the same golden digest;
* `deployed_was_promoted` — along every run of promotions, rollbacks and deployments.
-/

namespace Aivcs
namespace Deploy

open Lib State Domain

/-- `AivcsError`, as far as these operations meet it. -/
inductive AivcsError where
  | invalidAgentSpec (detail : String)
  | releaseConflict (detail : String)
  | digestMismatch (expected actual : String)
  | storageError (detail : String)
  deriving DecidableEq

def storageErr (e : StorageError) : AivcsError :=
  .storageError e.toString

/-- The payloads of events are JSON values. -/
abbrev Payload : Type := Doc Number

/-! ## Replaying -/

structure ReplaySummary where
  runId : String
  agentName : String
  status : RunStatus
  eventCount : Nat
  replayDigest : String
  specDigest : ContentDigest

theorem u64_range (n : Nat) : -2 ^ 63 ≤ ((n % 2 ^ 64 : Nat) : Int) ∧ ((n % 2 ^ 64 : Nat) : Int) < 2 ^ 64 := by
  have := Nat.mod_lt n (show 0 < 2 ^ 64 by decide)
  omega

/-- A `u64` as a JSON number. -/
def u64 (n : Nat) : Number :=
  .int (n % 2 ^ 64 : Nat) (u64_range n)

section Replay

variable (fmt : F64 → Bytes) (rfc3339 : Timestamp → String) (sha256Hex : Bytes → String)

/-- How `serde` writes a `RunEvent`. -/
def eventDoc (event : RunEvent Payload) : Doc Number :=
  .obj [("seq", .num (u64 event.seq)), ("kind", .str event.kind), ("payload", event.payload),
    ("timestamp", .str (rfc3339 event.timestamp))]

/-- The digest of `serde_json::to_vec(&events)`, as text. -/
def replayDigest (events : List (RunEvent Payload)) : String :=
  sha256Hex ((Doc.arr (events.map (eventDoc rfc3339))).render (numberText fmt))

/-- `replay_run`. -/
def replayRun (runId : RunId) (ledger : DynRunLedger Payload) :
    Except AivcsError (List (RunEvent Payload) × ReplaySummary) × DynRunLedger Payload :=
  match ledger.askRun runId with
  | (.error e, ledger) => (.error (storageErr e), ledger)
  | (.ok record, ledger) =>
      match ledger.askEvents runId with
      | (.error e, ledger) => (.error (storageErr e), ledger)
      | (.ok events, ledger) =>
          let summary : ReplaySummary :=
            { runId := record.runId
              agentName := record.metadata.agentName
              status := record.status
              eventCount := events.length
              replayDigest := replayDigest fmt rfc3339 sha256Hex events
              specDigest := record.specDigest }
          (.ok (events, summary), ledger)

end Replay

/-- `verify_spec_digest`. -/
def verifySpecDigest (runId : RunId) (expected : ContentDigest) (ledger : DynRunLedger Payload) :
    Except AivcsError Unit × DynRunLedger Payload :=
  match ledger.askRun runId with
  | (.error e, ledger) => (.error (storageErr e), ledger)
  | (.ok record, ledger) =>
      if record.specDigest ≠ expected then
        (.error (.digestMismatch expected.str record.specDigest.str), ledger)
      else (.ok (), ledger)

/-! ## The reference runner -/

structure DeployRunOutput where
  runId : RunId
  emittedEvents : Nat

def deployMetadata (agentName : String) : RunMetadata Payload :=
  ⟨none, agentName, .obj [("mode", .str "deploy_by_digest")], EvaluationMetadata.default⟩

/-- The events of a deployment. -/
def deployEvents (specDigest : ContentDigest) (agentName : String) (timestamp : Timestamp) :
    List (RunEvent Payload) :=
  [⟨1, "deploy_started", .obj [("spec_digest", .str specDigest.str)], timestamp⟩,
    ⟨2, "agent_executed",
      .obj [("agent_name", .str agentName), ("spec_digest", .str specDigest.str)], timestamp⟩,
    ⟨3, "deploy_completed", .obj [("success", .bool true)], timestamp⟩]

section Runner

-- The clock of the ledger at the `n`-th operation of the deployment.
variable (now : Nat → Timestamp)

/-- The loop over the events; `n` operations have been made before. -/
def appendAll (runId : RunId) (n : Nat) :
    List (RunEvent Payload) → DynRunLedger Payload → Except AivcsError Unit × DynRunLedger Payload
  | [], ledger => (.ok (), ledger)
  | event :: rest, ledger =>
      match ledger.appendEvent runId (now n) event with
      | (.error e, ledger) => (.error (storageErr e), ledger)
      | (.ok _, ledger) => appendAll runId (n + 1) rest ledger

/-- `DeployByDigestRunner::run_at`; `runId` is the identifier a new run is given. -/
def DeployByDigestRunner.runAt (runId : RunId) (elapsedMs : Nat) (specDigest : ContentDigest)
    (agentName : String) (timestamp : Timestamp) (ledger : DynRunLedger Payload) :
    Except AivcsError DeployRunOutput × DynRunLedger Payload :=
  match ledger.createRun runId (now 0) specDigest (deployMetadata agentName) with
  | (.error e, ledger) => (.error (storageErr e), ledger)
  | (.ok runId, ledger) =>
      match appendAll now runId 1 (deployEvents specDigest agentName timestamp) ledger with
      | (.error e, ledger) => (.error e, ledger)
      | (.ok _, ledger) =>
          match ledger.completeRun runId (now 4) ⟨3, none, elapsedMs, true⟩ with
          | (.error e, ledger) => (.error (storageErr e), ledger)
          | (.ok _, ledger) => (.ok ⟨runId, 3⟩, ledger)

end Runner

/-! ## Deploying the current release -/

structure DeployResult where
  runId : RunId
  specDigest : String
  summary : ReplaySummary

/-- One call of `deploy_by_digest`, with what it is given from outside. -/
structure DeployCall where
  agentName : String
  /-- The time given for the events; without one the events get the time of the call. -/
  timestamp : Option Timestamp
  utcNow : Timestamp
  runId : RunId
  now : Nat → Timestamp
  elapsedMs : Nat

def DeployCall.eventTime (call : DeployCall) : Timestamp :=
  call.timestamp.getD call.utcNow

section Deploy

variable (fmt : F64 → Bytes) (rfc3339 : Timestamp → String) (sha256Hex : Bytes → String)

/-- `deploy_by_digest`; `current` is what the registry answers. -/
def deployByDigest (current : Except StorageError (Option ReleaseRecord)) (call : DeployCall)
    (ledger : DynRunLedger Payload) : Except AivcsError DeployResult × DynRunLedger Payload :=
  match current with
  | .error e => (.error (storageErr e), ledger)
  | .ok none =>
      (.error (.releaseConflict ("no current release for agent '" ++ call.agentName ++ "'")), ledger)
  | .ok (some release) =>
      match DeployByDigestRunner.runAt call.now call.runId call.elapsedMs release.specDigest
          call.agentName call.eventTime ledger with
      | (.error e, ledger) => (.error e, ledger)
      | (.ok output, ledger) =>
          match replayRun fmt rfc3339 sha256Hex output.runId ledger with
          | (.error e, ledger) => (.error e, ledger)
          | (.ok (_, summary), ledger) =>
              (.ok ⟨output.runId, release.specDigest.str, summary⟩, ledger)

end Deploy

/-! ## Promoting a specification -/

section Promote

variable (fmt : F64 → Bytes) (sha256Hex : Bytes → String)

/-- `AgentSpec::verify_digest`. -/
def verifyDigest (spec : AgentSpec) : Except AivcsError Unit :=
  let computed := computeDigest fmt sha256Hex spec.toAgentSpecFields.toValue
  if computed ≠ spec.specDigest then .error (.digestMismatch spec.specDigest computed) else .ok ()

def validateSpecForPromote (spec : AgentSpec) : Except AivcsError ContentDigest :=
  if spec.graphDigest = "" then .error (.invalidAgentSpec "graph_digest is empty")
  else if spec.promptsDigest = "" then .error (.invalidAgentSpec "prompts_digest is empty")
  else if spec.toolsDigest = "" then .error (.invalidAgentSpec "tools_digest is empty")
  else if spec.configDigest = "" then .error (.invalidAgentSpec "config_digest is empty")
  else if spec.gitSha = "" then .error (.invalidAgentSpec "git_sha is empty")
  else
    match verifyDigest fmt sha256Hex spec with
    | .error e => .error e
    | .ok () =>
        match ContentDigest.tryFrom spec.specDigest with
        | .error e => .error (.invalidAgentSpec ("spec_digest is not valid hex: " ++ e.toString))
        | .ok digest => .ok digest

end Promote

/-- Every field of the specification says something, and its digest is that of its fields. -/
structure PromotableSpec (fmt : F64 → Bytes) (sha256Hex : Bytes → String) (spec : AgentSpec) : Prop where
  graph : spec.graphDigest ≠ ""
  prompts : spec.promptsDigest ≠ ""
  tools : spec.toolsDigest ≠ ""
  config : spec.configDigest ≠ ""
  gitSha : spec.gitSha ≠ ""
  digest : spec.specDigest = computeDigest fmt sha256Hex spec.toAgentSpecFields.toValue

theorem validateSpecForPromote_ok {fmt : F64 → Bytes} {sha256Hex : Bytes → String} {spec : AgentSpec}
    {digest : ContentDigest} (h : validateSpecForPromote fmt sha256Hex spec = .ok digest) :
    PromotableSpec fmt sha256Hex spec ∧ ContentDigest.tryFrom spec.specDigest = .ok digest := by
  unfold validateSpecForPromote verifyDigest at h
  -- One check after the other: each of them would have ended in an error.
  split at h
  · cases h
  · rename_i hgraph
    split at h
    · cases h
    · rename_i hprompts
      split at h
      · cases h
      · rename_i htools
        split at h
        · cases h
        · rename_i hconfig
          split at h
          · cases h
          · rename_i hgit
            by_cases hdigest : computeDigest fmt sha256Hex spec.toAgentSpecFields.toValue = spec.specDigest
            · simp only [hdigest, ne_eq, not_true_eq_false, if_false] at h
              cases htry : ContentDigest.tryFrom spec.specDigest with
              | error e =>
                  simp only [htry] at h
                  cases h
              | ok digest' =>
                  simp only [htry] at h
                  cases h
                  exact ⟨⟨hgraph, hprompts, htools, hconfig, hgit, hdigest.symm⟩, rfl⟩
            · simp only [ne_eq, hdigest, not_false_eq_true, if_true] at h
              cases h

/-! ## What the runner leaves behind -/

section Outcomes

variable {now : Nat → Timestamp} {rid : RunId}

/-- The events as the ledger keeps them, when the first of them is its `n`-th operation. -/
def stampAll (timeOf : Timestamp → RunEvent Payload → Timestamp) (now : Nat → Timestamp) (n : Nat) :
    List (RunEvent Payload) → List (RunEvent Payload)
  | [] => []
  | event :: rest => event.stamp (timeOf (now n) event) :: stampAll timeOf now (n + 1) rest

@[simp] theorem length_stampAll (timeOf : Timestamp → RunEvent Payload → Timestamp) (n : Nat)
    (events : List (RunEvent Payload)) : (stampAll timeOf now n events).length = events.length := by
  induction events generalizing n with
  | nil => rfl
  | cons event rest ih => simp only [stampAll, List.length_cons, ih]

theorem map_seq_stampAll (timeOf : Timestamp → RunEvent Payload → Timestamp) (n : Nat)
    (events : List (RunEvent Payload)) :
    (stampAll timeOf now n events).map RunEvent.seq = events.map RunEvent.seq := by
  induction events generalizing n with
  | nil => rfl
  | cons event rest ih => simp only [stampAll, List.map_cons, RunEvent.stamp_seq, ih]

/-- Appending events to a running run: some of them are there afterwards, in their order and without gaps, and
all of them when success is reported. -/
theorem appendAll_outcome {record : RunRecord Payload} (hrunning : record.status = .running)
    {events rest : List (RunEvent Payload)} {ledger : DynRunLedger Payload} {n : Nat}
    (hholds : ledger.Holds rid ⟨record, events⟩)
    (hnodup : ((events ++ rest).map RunEvent.seq).Nodup) :
    (∃ k ≤ rest.length, (appendAll now rid n rest ledger).2.Holds rid
      ⟨record, events ++ stampAll ledger.timeOf now n (rest.take k)⟩) ∧
    ((appendAll now rid n rest ledger).1 = .ok () → (appendAll now rid n rest ledger).2.Holds rid
      ⟨record, events ++ stampAll ledger.timeOf now n rest⟩) ∧
    ∀ rid', rid' ≠ rid → DynRunLedger.SameAt rid' ledger (appendAll now rid n rest ledger).2 := by
  induction rest generalizing events ledger n with
  | nil =>
      refine ⟨⟨0, le_refl _, ?_⟩, fun _ => ?_, fun rid' _ => DynRunLedger.SameAt.refl _ _⟩
      all_goals
        simpa only [appendAll, stampAll, List.take_nil, List.append_nil] using hholds
  | cons event rest ih =>
      have hnew : ∀ e ∈ events, e.seq ≠ event.seq := by
        rw [List.map_append, List.nodup_append] at hnodup
        intro e he
        exact hnodup.2.2 _ (List.mem_map_of_mem he) _ (by simp)
      obtain ⟨hstate, hother⟩ := DynRunLedger.appendEvent_outcome hholds hrunning (now n) hnew
      have htime : (ledger.appendEvent rid (now n) event).2.timeOf = ledger.timeOf :=
        DynRunLedger.timeOf_appendEvent ledger (now n) event
      cases happend : ledger.appendEvent rid (now n) event with
      | mk answer ledger' =>
          rw [happend] at hstate hother htime
          cases answer with
          | error e =>
              simp only [appendAll, happend]
              refine ⟨?_, fun h => (nomatch h), hother⟩
              rcases hstate with hstate | hstate
              · refine ⟨0, Nat.zero_le _, ?_⟩
                simpa only [List.take_zero, stampAll, List.append_nil] using hstate
              · exact ⟨1, by simp, hstate⟩
          | ok _ =>
              have hheld := DynRunLedger.appendEvent_stamped hholds hrunning hnew happend
              have hnodup' : (((events ++ [event.stamp (ledger.timeOf (now n) event)]) ++ rest).map
                  RunEvent.seq).Nodup := by
                simpa using hnodup
              obtain ⟨⟨k, hk, hpart⟩, hall, hother'⟩ := ih (n := n + 1) hheld hnodup'
              simp only [appendAll, happend]
              rw [htime] at hpart hall
              refine ⟨⟨k + 1, by simpa using hk, ?_⟩, ?_, ?_⟩
              · simpa only [List.take_succ_cons, stampAll, List.append_assoc, List.singleton_append]
                  using hpart
              · intro hok
                simpa only [stampAll, List.append_assoc, List.singleton_append] using hall hok
              · intro rid' hne
                exact (hother rid' hne).trans (hother' rid' hne)

/-- The record of a run that a deployment has begun. -/
def startedRecord (now : Nat → Timestamp) (rid : RunId) (specDigest : ContentDigest)
    (agentName : String) : RunRecord Payload :=
  ⟨rid, specDigest, deployMetadata agentName, .running, none, now 0, none⟩

/-- The state of a run of which the first `k` events have been appended. -/
def startedState (timeOf : Timestamp → RunEvent Payload → Timestamp) (now : Nat → Timestamp) (rid : RunId)
    (specDigest : ContentDigest) (agentName : String) (timestamp : Timestamp) (k : Nat) :
    RunState Payload :=
  ⟨startedRecord now rid specDigest agentName,
    stampAll timeOf now 1 ((deployEvents specDigest agentName timestamp).take k)⟩

/-- What a deployment leaves of its run: nothing, a running run with its first events, or a completed run
with all of them. -/
inductive Left (timeOf : Timestamp → RunEvent Payload → Timestamp) (now : Nat → Timestamp) (rid : RunId)
    (specDigest : ContentDigest) (agentName : String) (timestamp : Timestamp)
    (ledger : DynRunLedger Payload) : Prop
  | absent (h : ledger.Fresh rid)
  | started (k : Nat) (hk : k ≤ 3)
      (h : ledger.Holds rid (startedState timeOf now rid specDigest agentName timestamp k))
  | completed (kept : RunSummary) (hkept : kept.totalEvents = 3)
      (h : ledger.Holds rid (MemoryRunLedger.RunState.finish .completed kept (now 4)
        (startedState timeOf now rid specDigest agentName timestamp 3)))

variable {specDigest : ContentDigest} {agentName : String} {timestamp : Timestamp} {elapsedMs : Nat}

theorem deployEvents_nodup :
    ((deployEvents specDigest agentName timestamp).map RunEvent.seq).Nodup := by
  simp only [deployEvents, List.map_cons, List.map_nil]
  decide

variable (now specDigest agentName timestamp elapsedMs) in
theorem runAt_outcome {ledger : DynRunLedger Payload} (hfresh : ledger.Fresh rid) :
    Left ledger.timeOf now rid specDigest agentName timestamp
      (DeployByDigestRunner.runAt now rid elapsedMs specDigest agentName timestamp ledger).2 ∧
    (∀ output,
      (DeployByDigestRunner.runAt now rid elapsedMs specDigest agentName timestamp ledger).1 = .ok output →
      output = ⟨rid, 3⟩ ∧ ∃ kept : RunSummary, kept.totalEvents = 3 ∧
        (DeployByDigestRunner.runAt now rid elapsedMs specDigest agentName timestamp ledger).2.Holds rid
          (MemoryRunLedger.RunState.finish .completed kept (now 4)
            (startedState ledger.timeOf now rid specDigest agentName timestamp 3))) ∧
    ∀ rid', rid' ≠ rid → DynRunLedger.SameAt rid' ledger
      (DeployByDigestRunner.runAt now rid elapsedMs specDigest agentName timestamp ledger).2 := by
  obtain ⟨hcreated, hother⟩ :=
    DynRunLedger.createRun_outcome hfresh (now 0) specDigest (deployMetadata agentName)
  have htime : (ledger.createRun rid (now 0) specDigest (deployMetadata agentName)).2.timeOf =
      ledger.timeOf :=
    DynRunLedger.timeOf_createRun ledger (now 0) specDigest (deployMetadata agentName)
  unfold DeployByDigestRunner.runAt
  cases hcreate : ledger.createRun rid (now 0) specDigest (deployMetadata agentName) with
  | mk answer ledger₁ =>
      rw [hcreate] at hcreated hother htime
      cases answer with
      | error e =>
          refine ⟨?_, fun _ h => (nomatch h), hother⟩
          rcases hcreated with hcreated | hcreated
          · exact .absent hcreated
          · exact .started 0 (Nat.zero_le _) hcreated
      | ok rid' =>
          obtain ⟨rfl, hheld⟩ := DynRunLedger.createRun_ok hfresh hcreate
          have hrunning : (startedRecord now rid' specDigest agentName).status = .running := rfl
          have hnodup : (([] ++ deployEvents specDigest agentName timestamp).map RunEvent.seq).Nodup :=
            deployEvents_nodup
          obtain ⟨⟨k, hk, hpart⟩, hall, hother₂⟩ :=
            appendAll_outcome (n := 1) hrunning hheld hnodup
          simp only
          cases happend : appendAll now rid' 1 (deployEvents specDigest agentName timestamp) ledger₁ with
          | mk answer₂ ledger₂ =>
              rw [happend] at hpart hall hother₂
              rw [htime] at hpart hall
              have hsame₂ : ∀ rid, rid ≠ rid' → DynRunLedger.SameAt rid ledger ledger₂ :=
                fun rid hne => (hother rid hne).trans (hother₂ rid hne)
              cases answer₂ with
              | error e =>
                  exact ⟨.started k hk hpart, fun _ h => (nomatch h), hsame₂⟩
              | ok _ =>
                  have hfull : ledger₂.Holds rid'
                      (startedState ledger.timeOf now rid' specDigest agentName timestamp 3) := hall rfl
                  obtain ⟨hended, hother₃⟩ :=
                    DynRunLedger.completeRun_outcome hfull rfl (now 4) ⟨3, none, elapsedMs, true⟩
                  simp only
                  cases hcomplete : ledger₂.completeRun rid' (now 4) ⟨3, none, elapsedMs, true⟩ with
                  | mk answer₃ ledger₃ =>
                      rw [hcomplete] at hended hother₃
                      have hsame₃ : ∀ rid, rid ≠ rid' → DynRunLedger.SameAt rid ledger ledger₃ :=
                        fun rid hne => (hsame₂ rid hne).trans (hother₃ rid hne)
                      cases answer₃ with
                      | error e =>
                          refine ⟨?_, fun _ h => (nomatch h), hsame₃⟩
                          rcases hended with hended | ⟨kept, hkept, hended⟩
                          · exact .started 3 (le_refl _) hended
                          · exact .completed kept hkept hended
                      | ok _ =>
                          obtain ⟨kept, hkept, hdone⟩ := DynRunLedger.completeRun_ok hfull rfl hcomplete
                          refine ⟨.completed kept hkept hdone, ?_, hsame₃⟩
                          intro output houtput
                          cases houtput
                          exact ⟨rfl, kept, hkept, hdone⟩

section Replayed

variable (fmt : F64 → Bytes) (rfc3339 : Timestamp → String) (sha256Hex : Bytes → String)

/-- What the replay of a run in this state says. -/
def summaryOf (state : RunState Payload) : ReplaySummary :=
  { runId := state.record.runId
    agentName := state.record.metadata.agentName
    status := state.record.status
    eventCount := state.events.length
    replayDigest := replayDigest fmt rfc3339 sha256Hex
      (state.events.insertionSort fun a b => a.seq ≤ b.seq)
    specDigest := state.record.specDigest }

/-- A replay changes nothing, and one that succeeds gives the events in the order of their numbers. -/
theorem replayRun_of_holds {ledger : DynRunLedger Payload} {state : RunState Payload}
    (hholds : ledger.Holds rid state) :
    (∀ rid', DynRunLedger.SameAt rid' ledger (replayRun fmt rfc3339 sha256Hex rid ledger).2) ∧
    ∀ events summary, (replayRun fmt rfc3339 sha256Hex rid ledger).1 = .ok (events, summary) →
      events = state.events.insertionSort (fun a b => a.seq ≤ b.seq) ∧
        summary = summaryOf fmt rfc3339 sha256Hex state := by
  obtain ⟨hsame, hanswer⟩ := DynRunLedger.askRun_spec ledger rid
  obtain ⟨record, hget, hview⟩ := DynRunLedger.getRun_of_holds hholds
  unfold replayRun
  cases hrun : ledger.askRun rid with
  | mk answer ledger₁ =>
      rw [hrun] at hsame hanswer
      cases answer with
      | error e =>
          exact ⟨hsame, fun _ _ h => (nomatch h)⟩
      | ok record' =>
          obtain rfl : record = record' := by
            have := (hanswer record' rfl).symm.trans hget
            cases this
            rfl
          obtain ⟨hsame₂, hanswer₂⟩ := DynRunLedger.askEvents_spec ledger₁ rid
          have hheld : ledger₁.Holds rid state := (hsame rid).holds_iff.2 hholds
          simp only
          cases hevents : ledger₁.askEvents rid with
          | mk answer₂ ledger₂ =>
              rw [hevents] at hsame₂ hanswer₂
              have hsame' : ∀ rid', DynRunLedger.SameAt rid' ledger ledger₂ :=
                fun rid' => (hsame rid').trans (hsame₂ rid')
              cases answer₂ with
              | error e =>
                  exact ⟨hsame', fun _ _ h => (nomatch h)⟩
              | ok events =>
                  have hsorted : events = state.events.insertionSort (fun a b => a.seq ≤ b.seq) := by
                    have h := hanswer₂ events rfl
                    rw [DynRunLedger.getEvents_of_holds hheld] at h
                    cases h
                    rfl
                  refine ⟨hsame', ?_⟩
                  intro events' summary h
                  cases h
                  refine ⟨hsorted, ?_⟩
                  simp only [RunRecord.view, RunView.mk.injEq] at hview
                  obtain ⟨hid, hspec, hmeta, hstatus, -⟩ := hview
                  simp only [summaryOf, hid, hspec, hmeta, hstatus, hsorted, List.length_insertionSort]

end Replayed

/-- A run passes for the digest it was begun with only, and is not touched. -/
theorem verifySpecDigest_of_holds {ledger : DynRunLedger Payload} {state : RunState Payload}
    (hholds : ledger.Holds rid state) (expected : ContentDigest) :
    (∀ rid', DynRunLedger.SameAt rid' ledger (verifySpecDigest rid expected ledger).2) ∧
    ((verifySpecDigest rid expected ledger).1 = .ok () → state.record.specDigest = expected) ∧
    ∀ e a, (verifySpecDigest rid expected ledger).1 = .error (.digestMismatch e a) →
      state.record.specDigest ≠ expected ∧ e = expected.str ∧ a = state.record.specDigest.str := by
  obtain ⟨hsame, hanswer⟩ := DynRunLedger.askRun_spec ledger rid
  obtain ⟨record, hget, hview⟩ := DynRunLedger.getRun_of_holds hholds
  have hdigest : record.specDigest = state.record.specDigest := by
    simp only [RunRecord.view, RunView.mk.injEq] at hview
    exact hview.2.1
  unfold verifySpecDigest
  cases hrun : ledger.askRun rid with
  | mk answer ledger' =>
      rw [hrun] at hsame hanswer
      cases answer with
      | error e =>
          exact ⟨hsame, fun h => (nomatch h), fun _ _ h => (nomatch h)⟩
      | ok record' =>
          obtain rfl : record = record' := by
            have := (hanswer record' rfl).symm.trans hget
            cases this
            rfl
          simp only [hdigest]
          by_cases hexpected : state.record.specDigest = expected
          · rw [if_neg (not_not.2 hexpected)]
            exact ⟨hsame, fun _ => hexpected, fun _ _ h => (nomatch h)⟩
          · rw [if_pos hexpected]
            refine ⟨hsame, fun h => (nomatch h), ?_⟩
            intro e a h
            cases h
            exact ⟨hexpected, rfl, rfl⟩

end Outcomes

/-! ## What a deployment does -/

section Deployments

variable (fmt : F64 → Bytes) (rfc3339 : Timestamp → String) (sha256Hex : Bytes → String)

/-- The events of a deployment as the ledger keeps them. -/
def keptEvents (timeOf : Timestamp → RunEvent Payload → Timestamp) (call : DeployCall)
    (specDigest : ContentDigest) : List (RunEvent Payload) :=
  stampAll timeOf call.now 1 (deployEvents specDigest call.agentName call.eventTime)

/-- What a deployment of `specDigest` leaves of its run. -/
abbrev DeployCall.Left (timeOf : Timestamp → RunEvent Payload → Timestamp) (call : DeployCall)
    (specDigest : ContentDigest) (ledger : DynRunLedger Payload) : Prop :=
  Deploy.Left timeOf call.now call.runId specDigest call.agentName call.eventTime ledger

/-- The state of a run that a deployment has completed. -/
def completedState (timeOf : Timestamp → RunEvent Payload → Timestamp) (call : DeployCall)
    (specDigest : ContentDigest) (kept : RunSummary) : RunState Payload :=
  MemoryRunLedger.RunState.finish .completed kept (call.now 4)
    (startedState timeOf call.now call.runId specDigest call.agentName call.eventTime 3)

theorem DeployCall.Left.of_sameAt {timeOf : Timestamp → RunEvent Payload → Timestamp}
    {call : DeployCall} {specDigest : ContentDigest} {l l' : DynRunLedger Payload}
    (h : call.Left timeOf specDigest l) (hsame : DynRunLedger.SameAt call.runId l l') :
    call.Left timeOf specDigest l' := by
  cases h with
  | absent h => exact .absent (hsame.fresh_iff.2 h)
  | started k hk h => exact .started k hk (hsame.holds_iff.2 h)
  | completed kept hkept h => exact .completed kept hkept (hsame.holds_iff.2 h)

/-- However a deployment ends, and whatever the connection does meanwhile: other runs are not touched, no
run is begun without a release, and the run of the release is absent, running with the first of its events,
or completed with all of them; when success is reported it is completed. -/
theorem deployByDigest_spec {ledger : DynRunLedger Payload} {call : DeployCall}
    (current : Except StorageError (Option ReleaseRecord)) (hfresh : ledger.Fresh call.runId) :
    (∀ rid, rid ≠ call.runId → DynRunLedger.SameAt rid ledger
      (deployByDigest fmt rfc3339 sha256Hex current call ledger).2) ∧
    ((∀ release, current ≠ .ok (some release)) →
      (deployByDigest fmt rfc3339 sha256Hex current call ledger).2 = ledger ∧
      ∀ result, (deployByDigest fmt rfc3339 sha256Hex current call ledger).1 ≠ .ok result) ∧
    ∀ release, current = .ok (some release) →
      call.Left ledger.timeOf release.specDigest
        (deployByDigest fmt rfc3339 sha256Hex current call ledger).2 ∧
      ∀ result, (deployByDigest fmt rfc3339 sha256Hex current call ledger).1 = .ok result →
        ∃ kept : RunSummary, kept.totalEvents = 3 ∧
          (deployByDigest fmt rfc3339 sha256Hex current call ledger).2.Holds call.runId
            (completedState ledger.timeOf call release.specDigest kept) ∧
          result = ⟨call.runId, release.specDigest.str, summaryOf fmt rfc3339 sha256Hex
            (completedState ledger.timeOf call release.specDigest kept)⟩ := by
  have hrefl : ∀ rid, rid ≠ call.runId → DynRunLedger.SameAt rid ledger ledger :=
    fun rid _ => DynRunLedger.SameAt.refl rid ledger
  unfold deployByDigest
  cases current with
  | error e =>
      exact ⟨hrefl, fun _ => ⟨rfl, fun _ h => (nomatch h)⟩, fun _ h => (nomatch h)⟩
  | ok answer =>
      cases answer with
      | none =>
          exact ⟨hrefl, fun _ => ⟨rfl, fun _ h => (nomatch h)⟩, fun _ h => (nomatch h)⟩
      | some release =>
          obtain ⟨hleft, hok, hother⟩ := runAt_outcome call.now release.specDigest call.agentName
            call.eventTime call.elapsedMs hfresh
          simp only
          cases hrun : DeployByDigestRunner.runAt call.now call.runId call.elapsedMs release.specDigest
              call.agentName call.eventTime ledger with
          | mk answer ledger₁ =>
              rw [hrun] at hleft hok hother
              cases answer with
              | error e =>
                  refine ⟨hother, fun h => absurd rfl (h release), ?_⟩
                  rintro release' h
                  cases h
                  exact ⟨hleft, fun _ h => (nomatch h)⟩
              | ok output =>
                  obtain ⟨rfl, kept, hkept, hdone⟩ := hok output rfl
                  obtain ⟨hsame, hsummary⟩ := replayRun_of_holds fmt rfc3339 sha256Hex hdone
                  simp only
                  cases hreplay : replayRun fmt rfc3339 sha256Hex call.runId ledger₁ with
                  | mk answer₂ ledger₂ =>
                      rw [hreplay] at hsame hsummary
                      have hleft₂ : call.Left ledger.timeOf release.specDigest ledger₂ :=
                        DeployCall.Left.of_sameAt hleft (hsame _)
                      have hother₂ : ∀ rid, rid ≠ call.runId → DynRunLedger.SameAt rid ledger ledger₂ :=
                        fun rid hne => (hother rid hne).trans (hsame rid)
                      cases answer₂ with
                      | error e =>
                          refine ⟨hother₂, fun h => absurd rfl (h release), ?_⟩
                          rintro release' h
                          cases h
                          exact ⟨hleft₂, fun _ h => (nomatch h)⟩
                      | ok replayed =>
                          refine ⟨hother₂, fun h => absurd rfl (h release), ?_⟩
                          rintro release' h
                          cases h
                          refine ⟨hleft₂, ?_⟩
                          rintro result h
                          cases h
                          obtain ⟨-, hsum⟩ := hsummary replayed.1 replayed.2 rfl
                          exact ⟨kept, hkept, (hsame _).holds_iff.2 hdone, by rw [hsum]; rfl⟩

/-! ## The golden digest -/

variable {fmt rfc3339 sha256Hex}

theorem u64_inj {m n : Nat} (hm : m < 2 ^ 64) (hn : n < 2 ^ 64) (h : u64 m = u64 n) : m = n := by
  have hint := (Number.int.injEq _ _ _ _).mp h
  rw [Nat.mod_eq_of_lt hm, Nat.mod_eq_of_lt hn] at hint
  exact_mod_cast hint

theorem digest_str_injective : Function.Injective ContentDigest.str := by
  intro d d' h
  cases d
  cases d'
  simpa only [ContentDigest.mk.injEq] using h

theorem eventDoc_inj (hrfc : Function.Injective rfc3339) {e e' : RunEvent Payload}
    (hseq : e.seq < 2 ^ 64) (hseq' : e'.seq < 2 ^ 64) (h : eventDoc rfc3339 e = eventDoc rfc3339 e') :
    e = e' := by
  simp only [eventDoc, Doc.obj.injEq, List.cons.injEq, Prod.mk.injEq, Doc.num.injEq, Doc.str.injEq,
    true_and, and_true] at h
  obtain ⟨hnum, hkind, hpayload, htime⟩ := h
  cases e
  cases e'
  simp only [RunEvent.mk.injEq]
  exact ⟨u64_inj hseq hseq' hnum, hkind, hpayload, hrfc htime⟩

/-- Equal golden digests are digests of equal events. -/
theorem replayDigest_eq_iff (hfmt : FloatText fmt) (hrfc : Function.Injective rfc3339)
    (hsha : Function.Injective sha256Hex) {events events' : List (RunEvent Payload)}
    (hseq : ∀ e ∈ events, e.seq < 2 ^ 64) (hseq' : ∀ e ∈ events', e.seq < 2 ^ 64) :
    replayDigest fmt rfc3339 sha256Hex events = replayDigest fmt rfc3339 sha256Hex events' ↔
      events = events' := by
  refine ⟨?_, fun h => by rw [h]⟩
  intro h
  have hdoc := Doc.arr.inj (Doc.render_injective hfmt.numberText (hsha h))
  clear h
  induction events generalizing events' with
  | nil =>
      cases events' with
      | nil => rfl
      | cons e' rest' => simp at hdoc
  | cons e rest ih =>
      cases events' with
      | nil => simp at hdoc
      | cons e' rest' =>
          rw [List.map_cons, List.map_cons, List.cons.injEq] at hdoc
          rw [eventDoc_inj hrfc (hseq e (by simp)) (hseq' e' (by simp)) hdoc.1,
            ih (fun x hx => hseq x (by simp [hx])) (fun x hx => hseq' x (by simp [hx])) hdoc.2]

theorem map_seq_keptEvents (timeOf : Timestamp → RunEvent Payload → Timestamp) (call : DeployCall)
    (specDigest : ContentDigest) :
    (keptEvents timeOf call specDigest).map RunEvent.seq = [1, 2, 3] := by
  rw [keptEvents, map_seq_stampAll]
  rfl

/-- The events of a deployment are in the order of their numbers. -/
theorem insertionSort_keptEvents (timeOf : Timestamp → RunEvent Payload → Timestamp) (call : DeployCall)
    (specDigest : ContentDigest) :
    (keptEvents timeOf call specDigest).insertionSort (fun a b => a.seq ≤ b.seq) =
      keptEvents timeOf call specDigest := by
  apply List.Pairwise.insertionSort_eq
  have hsorted : ((keptEvents timeOf call specDigest).map RunEvent.seq).Pairwise (· ≤ ·) := by
    rw [map_seq_keptEvents]
    decide
  exact List.pairwise_map.1 hsorted

/-- What a deployment has told apart: the digest, the agent and the times at which its events are kept. -/
theorem keptEvents_eq_iff {timeOf timeOf' : Timestamp → RunEvent Payload → Timestamp}
    {call call' : DeployCall} {specDigest specDigest' : ContentDigest} :
    keptEvents timeOf call specDigest = keptEvents timeOf' call' specDigest' ↔
      specDigest = specDigest' ∧ call.agentName = call'.agentName ∧
        (keptEvents timeOf call specDigest).map RunEvent.timestamp =
          (keptEvents timeOf' call' specDigest').map RunEvent.timestamp := by
  constructor
  · intro h
    refine ⟨?_, ?_, by rw [h]⟩
    · have hfirst := congrArg (fun events => events.head?.map RunEvent.payload) h
      simp only [keptEvents, deployEvents, stampAll, List.head?_cons, Option.map_some, RunEvent.stamp,
        Option.some.injEq, Doc.obj.injEq, List.cons.injEq, Prod.mk.injEq, Doc.str.injEq, true_and,
        and_true] at hfirst
      exact digest_str_injective hfirst
    · have hsecond := congrArg (fun events => events[1]?.map RunEvent.payload) h
      simp only [keptEvents, deployEvents, stampAll, List.getElem?_cons_succ, List.getElem?_cons_zero,
        Option.map_some, RunEvent.stamp, Option.some.injEq, Doc.obj.injEq, List.cons.injEq,
        Prod.mk.injEq, Doc.str.injEq, true_and, and_true] at hsecond
      exact hsecond.1
  · rintro ⟨rfl, hname, htimes⟩
    simp only [keptEvents, deployEvents, stampAll, List.map_cons, List.map_nil, RunEvent.stamp,
      List.cons.injEq, and_true] at htimes ⊢
    obtain ⟨h₁, h₂, h₃⟩ := htimes
    rw [hname] at h₂
    simp only [h₁, hname, h₂, h₃, and_self]

/-- Two deployments that succeed, on whatever ledgers, have the same golden digest exactly when they deploy
one digest for one agent and their events are kept with the same times.  The fake keeps the time that is
given; the database replaces it by the times of the insertions. -/
theorem replayDigest_deploy_iff (hfmt : FloatText fmt) (hrfc : Function.Injective rfc3339)
    (hsha : Function.Injective sha256Hex) {ledger ledger' : DynRunLedger Payload}
    {call call' : DeployCall} {release release' : ReleaseRecord} {result result' : DeployResult}
    (hfresh : ledger.Fresh call.runId) (hfresh' : ledger'.Fresh call'.runId)
    (hok : (deployByDigest fmt rfc3339 sha256Hex (.ok (some release)) call ledger).1 = .ok result)
    (hok' : (deployByDigest fmt rfc3339 sha256Hex (.ok (some release')) call' ledger').1 = .ok result') :
    result.summary.replayDigest = result'.summary.replayDigest ↔
      release.specDigest = release'.specDigest ∧ call.agentName = call'.agentName ∧
        (keptEvents ledger.timeOf call release.specDigest).map RunEvent.timestamp =
          (keptEvents ledger'.timeOf call' release'.specDigest).map RunEvent.timestamp := by
  have hdigest : ∀ {ledger : DynRunLedger Payload} {call : DeployCall} {release : ReleaseRecord}
      {result : DeployResult}, ledger.Fresh call.runId →
      (deployByDigest fmt rfc3339 sha256Hex (.ok (some release)) call ledger).1 = .ok result →
      result.summary.replayDigest =
        replayDigest fmt rfc3339 sha256Hex (keptEvents ledger.timeOf call release.specDigest) := by
    intro ledger call release result hfresh hok
    obtain ⟨-, -, hdone⟩ := deployByDigest_spec fmt rfc3339 sha256Hex (.ok (some release)) hfresh
    obtain ⟨kept, -, -, rfl⟩ := (hdone release rfl).2 result hok
    change replayDigest fmt rfc3339 sha256Hex
      ((keptEvents ledger.timeOf call release.specDigest).insertionSort fun a b => a.seq ≤ b.seq) = _
    rw [insertionSort_keptEvents]
  have hsmall : ∀ (timeOf : Timestamp → RunEvent Payload → Timestamp) (call : DeployCall)
      (specDigest : ContentDigest), ∀ e ∈ keptEvents timeOf call specDigest, e.seq < 2 ^ 64 := by
    intro timeOf call specDigest e he
    have hmem : e.seq ∈ (keptEvents timeOf call specDigest).map RunEvent.seq := List.mem_map_of_mem he
    rw [map_seq_keptEvents] at hmem
    simp only [List.mem_cons, List.not_mem_nil, or_false] at hmem
    omega
  rw [hdigest hfresh hok, hdigest hfresh' hok',
    replayDigest_eq_iff hfmt hrfc hsha (hsmall _ _ _) (hsmall _ _ _)]
  exact keptEvents_eq_iff

/-! ## An agent, its specification and their texts -/

def plannerDigest : ContentDigest :=
  ⟨"b52dcfe035f465c497c82cb5c99cfe081190de6a25203e5cf22e03e7ee959367", by decide, by decide⟩

def plannerSpec : AgentSpec where
  gitSha := "abc123"
  graphDigest := "g1"
  promptsDigest := "p1"
  toolsDigest := "t1"
  configDigest := "c1"
  specDigest := plannerDigest.str

/-- The beginning of 2024, in nanoseconds since 1970. -/
def newYear : Timestamp := 1704067200000000000

def sampleTime (t : Timestamp) : String :=
  tableDigest [(Json.renderInt newYear, "2024-01-01T00:00:00Z")] (Json.renderInt t)

/-- The SHA-256 digests of the specification and of the events of its deployment at that time. -/
def sampleSha : Bytes → String :=
  tableDigest [
    (utf8 ("\x7b\"config_digest\":\"c1\",\"git_sha\":\"abc123\",\"graph_digest\":\"g1\"," ++
      "\"prompts_digest\":\"p1\",\"tools_digest\":\"t1\"\x7d"), plannerDigest.str),
    (utf8 ("[\x7b\"seq\":1,\"kind\":\"deploy_started\",\"payload\":\x7b\"spec_digest\":\"" ++
      plannerDigest.str ++ "\"\x7d,\"timestamp\":\"2024-01-01T00:00:00Z\"\x7d," ++
      "\x7b\"seq\":2,\"kind\":\"agent_executed\",\"payload\":\x7b\"agent_name\":\"planner\"," ++
      "\"spec_digest\":\"" ++ plannerDigest.str ++
      "\"\x7d,\"timestamp\":\"2024-01-01T00:00:00Z\"\x7d," ++
      "\x7b\"seq\":3,\"kind\":\"deploy_completed\",\"payload\":\x7b\"success\":true\x7d," ++
      "\"timestamp\":\"2024-01-01T00:00:00Z\"\x7d]"),
      "b3388d6e41b77405e34d0e56abec580bffeff760555a1c256c9f5ad603430b20")]

theorem sampleTime_injective : Function.Injective sampleTime := by
  have htable : Function.Injective (tableDigest [(Json.renderInt newYear, "2024-01-01T00:00:00Z")]) :=
    tableDigest_injective (by decide +kernel) (by decide +kernel)
  exact htable.comp Doc.renderInt_injective

theorem sampleSha_injective : Function.Injective sampleSha :=
  tableDigest_injective (by decide +kernel) (by decide +kernel)

/-- A deployment of the agent, timed at the beginning of 2024. -/
def plannerCall (runId : RunId) : DeployCall :=
  ⟨"planner", some newYear, newYear, runId, fun n => newYear + n, 7⟩

def plannerRelease : ReleaseRecord :=
  ⟨"planner", plannerDigest, ⟨none, "ci", none⟩, newYear⟩

theorem fresh_memory (rid : RunId) : (DynRunLedger.memory ∅ : DynRunLedger Payload).Fresh rid := rfl

/-- Deployments of one release with one fixed time, whose runs have different identifiers. -/
theorem replayDigest_deploy_twice :
    ∃ result result' : DeployResult,
      (deployByDigest sampleText sampleTime sampleSha (.ok (some plannerRelease)) (plannerCall "run-a")
        (.memory ∅)).1 = .ok result ∧
      (deployByDigest sampleText sampleTime sampleSha (.ok (some plannerRelease)) (plannerCall "run-b")
        (.memory ∅)).1 = .ok result' ∧
      result.runId ≠ result'.runId ∧
      result.summary.replayDigest = result'.summary.replayDigest := by
  refine ⟨_, _, rfl, rfl, by decide, ?_⟩
  exact (replayDigest_deploy_iff sampleText_floatText sampleTime_injective sampleSha_injective
    (fresh_memory (plannerCall "run-a").runId) (fresh_memory (plannerCall "run-b").runId) rfl rfl).2
    ⟨rfl, rfl, rfl⟩

end Deployments

/-! ## Promotions, rollbacks and deployments -/

/-- The two backends of the release registry. -/
inductive RegistryBackend
  | memory
  | surreal
  deriving DecidableEq

namespace RegistryBackend

def promote (backend : RegistryBackend) (releases : Releases) (now : Timestamp) (name : String)
    (specDigest : ContentDigest) (metadata : ReleaseMetadata) :
    Except StorageError ReleaseRecord × Releases :=
  match backend with
  | memory => MemoryReleaseRegistry.promote releases now name specDigest metadata
  | surreal => SurrealHandle.releasePromote releases now name specDigest metadata

def rollback (backend : RegistryBackend) (releases : Releases) (now : Timestamp) (name : String) :
    Except StorageError ReleaseRecord × Releases :=
  match backend with
  | memory => MemoryReleaseRegistry.rollback releases name
  | surreal => SurrealHandle.releaseRollback releases now name

def current (backend : RegistryBackend) (releases : Releases) (name : String) :
    Option ReleaseRecord :=
  match backend with
  | memory => MemoryReleaseRegistry.current releases name
  | surreal => SurrealHandle.releaseCurrent releases name

variable {backend : RegistryBackend} {releases : Releases} {name : String}

/-- The current release is one of the records of the agent. -/
theorem current_mem {record : ReleaseRecord} (h : backend.current releases name = some record) :
    record ∈ releases.entries name := by
  cases backend with
  | memory =>
      rw [current, MemoryReleaseRegistry.current_eq] at h
      exact List.mem_of_getLast? h
  | surreal =>
      exact (List.mem_insertionSort _).1 (List.mem_of_head? h)

theorem mem_entries_promote {now : Timestamp} {specDigest : ContentDigest}
    {metadata : ReleaseMetadata} {name' : String} {record : ReleaseRecord}
    (h : record ∈ (backend.promote releases now name specDigest metadata).2.entries name') :
    record ∈ releases.entries name' ∨ (name' = name ∧ record.specDigest = specDigest) := by
  have hpush : (backend.promote releases now name specDigest metadata).2 =
      releases.push name ⟨name, specDigest, metadata, now⟩ := by
    cases backend <;> rfl
  rw [hpush] at h
  by_cases hname : name' = name
  · subst hname
    rw [Releases.entries_push_self, List.mem_append, List.mem_singleton] at h
    rcases h with h | rfl
    · exact Or.inl h
    · exact Or.inr ⟨rfl, rfl⟩
  · rw [Releases.entries_push_of_ne _ _ hname] at h
    exact Or.inl h

/-- A rollback adds a record with the digest of an old one. -/
theorem mem_entries_rollback {now : Timestamp} {name' : String} {record : ReleaseRecord}
    (h : record ∈ (backend.rollback releases now name).2.entries name') :
    ∃ old ∈ releases.entries name', old.specDigest = record.specDigest := by
  have hpushed : ∀ pushed : ReleaseRecord, (∃ old ∈ releases.entries name,
      old.specDigest = pushed.specDigest) → record ∈ (releases.push name pushed).entries name' →
      ∃ old ∈ releases.entries name', old.specDigest = record.specDigest := by
    intro pushed hold hmem
    by_cases hname : name' = name
    · subst hname
      rw [Releases.entries_push_self, List.mem_append, List.mem_singleton] at hmem
      rcases hmem with hmem | rfl
      · exact ⟨record, hmem, rfl⟩
      · exact hold
    · rw [Releases.entries_push_of_ne _ _ hname] at hmem
      exact ⟨record, hmem, rfl⟩
  cases backend with
  | memory =>
      simp only [rollback, MemoryReleaseRegistry.rollback] at h
      cases hn : releases name with
      | none =>
          simp only [hn] at h
          exact ⟨record, h, rfl⟩
      | some history =>
          simp only [hn] at h
          split at h
          · exact ⟨record, h, rfl⟩
          · refine hpushed _ ⟨_, ?_, rfl⟩ h
            rw [Releases.entries, hn, Option.getD_some]
            exact List.getElem_mem _
  | surreal =>
      simp only [rollback, SurrealHandle.releaseRollback] at h
      split at h
      · exact ⟨record, h, rfl⟩
      · exact ⟨record, h, rfl⟩
      · rename_i newest previous older hhistory
        refine hpushed ⟨name, previous.specDigest, previous.metadata, now⟩ ⟨previous, ?_, rfl⟩ h
        have hmem : previous ∈ SurrealHandle.releaseHistory releases name := by simp [hhistory]
        exact (List.mem_insertionSort _).1 hmem

end RegistryBackend

section System

variable (backend : RegistryBackend) (fmt : F64 → Bytes) (rfc3339 : Timestamp → String)
  (sha256Hex : Bytes → String)

/-- `ReleaseRegistryApi::promote`. -/
def apiPromote (name : String) (spec : AgentSpec) (metadata : ReleaseMetadata) (now : Timestamp)
    (releases : Releases) : Except AivcsError ReleaseRecord × Releases :=
  match validateSpecForPromote fmt sha256Hex spec with
  | .error e => (.error e, releases)
  | .ok contentDigest =>
      let r := backend.promote releases now name contentDigest metadata
      (r.1.mapError storageErr, r.2)

inductive Op
  | promote (name : String) (spec : AgentSpec) (metadata : ReleaseMetadata) (now : Timestamp)
  | rollback (name : String) (now : Timestamp)
  | deploy (call : DeployCall)

/-- The registry and the ledger. -/
structure System where
  releases : Releases
  ledger : DynRunLedger Payload

/-- One call of the API. -/
def System.step (s : System) : Op → System
  | .promote name spec metadata now =>
      { s with releases := (apiPromote backend fmt sha256Hex name spec metadata now s.releases).2 }
  | .rollback name now => { s with releases := (backend.rollback s.releases now name).2 }
  | .deploy call =>
      { s with ledger := (deployByDigest fmt rfc3339 sha256Hex
          (.ok (backend.current s.releases call.agentName)) call s.ledger).2 }

/-- A specification with this digest has been given to `promote` and found valid. -/
def Promoted (ops : List Op) (name : String) (specDigest : ContentDigest) : Prop :=
  ∃ spec metadata now, Op.promote name spec metadata now ∈ ops ∧
    validateSpecForPromote fmt sha256Hex spec = .ok specDigest

/-- What holds after the calls `ops`: each release has been promoted, a run is what is left of a deployment
of a digest that had been promoted before, and there are no other runs. -/
structure Traced (timeOf : Timestamp → RunEvent Payload → Timestamp) (ops : List Op) (s : System) :
    Prop where
  time : s.ledger.timeOf = timeOf
  releases : ∀ name, ∀ record ∈ s.releases.entries name,
    Promoted fmt sha256Hex ops name record.specDigest
  deployed : ∀ pre call post, ops = pre ++ Op.deploy call :: post →
    s.ledger.Fresh call.runId ∨ ∃ specDigest,
      Promoted fmt sha256Hex pre call.agentName specDigest ∧
        call.Left timeOf specDigest s.ledger
  others : ∀ rid, (∀ call, Op.deploy call ∈ ops → call.runId ≠ rid) → s.ledger.Fresh rid

variable {backend fmt rfc3339 sha256Hex}
variable {timeOf : Timestamp → RunEvent Payload → Timestamp} {ops : List Op} {s : System}

theorem Promoted.concat {name : String} {specDigest : ContentDigest}
    (h : Promoted fmt sha256Hex ops name specDigest) (op : Op) :
    Promoted fmt sha256Hex (ops ++ [op]) name specDigest := by
  obtain ⟨spec, metadata, now, hmem, hvalid⟩ := h
  exact ⟨spec, metadata, now, List.mem_append_left _ hmem, hvalid⟩

/-- Calls that do not deploy leave the ledger as it is. -/
theorem Traced.of_ledger {op : Op} {releases : Releases} (h : Traced fmt sha256Hex timeOf ops s)
    (hop : ∀ call, op ≠ .deploy call)
    (hreleases : ∀ name, ∀ record ∈ releases.entries name,
      Promoted fmt sha256Hex (ops ++ [op]) name record.specDigest) :
    Traced fmt sha256Hex timeOf (ops ++ [op]) { s with releases := releases } := by
  refine ⟨h.time, hreleases, ?_, ?_⟩
  · intro pre call post hsplit
    rcases concat_eq_append_cons.1 hsplit with ⟨post', -, hops⟩ | ⟨-, -, hlast⟩
    · exact h.deployed pre call post' hops
    · exact absurd hlast (hop call)
  · intro rid hrid
    exact h.others rid fun call hcall => hrid call (List.mem_append_left _ hcall)

theorem Traced.step {op : Op} (h : Traced fmt sha256Hex timeOf ops s)
    (hnew : ∀ call, op = .deploy call → ∀ call', Op.deploy call' ∈ ops → call'.runId ≠ call.runId) :
    Traced fmt sha256Hex timeOf (ops ++ [op]) (s.step backend fmt rfc3339 sha256Hex op) := by
  cases op with
  | promote name spec metadata now =>
      refine h.of_ledger (fun _ => by simp) ?_
      intro name' record hmem
      simp only [apiPromote] at hmem
      cases hvalid : validateSpecForPromote fmt sha256Hex spec with
      | error e =>
          simp only [hvalid] at hmem
          exact (h.releases name' record hmem).concat _
      | ok contentDigest =>
          simp only [hvalid] at hmem
          rcases RegistryBackend.mem_entries_promote hmem with hold | ⟨rfl, hdigest⟩
          · exact (h.releases name' record hold).concat _
          · exact ⟨spec, metadata, now, List.mem_concat_self, hdigest ▸ hvalid⟩
  | rollback name now =>
      refine h.of_ledger (fun _ => by simp) ?_
      intro name' record hmem
      obtain ⟨old, hold, hdigest⟩ := RegistryBackend.mem_entries_rollback hmem
      exact hdigest ▸ (h.releases name' old hold).concat _
  | deploy call =>
      have hids : ∀ call', Op.deploy call' ∈ ops → call'.runId ≠ call.runId := hnew call rfl
      have hfresh : s.ledger.Fresh call.runId := h.others call.runId hids
      obtain ⟨hother, hnone, hsome⟩ := deployByDigest_spec fmt rfc3339 sha256Hex
        (.ok (backend.current s.releases call.agentName)) hfresh
      refine ⟨?_, ?_, ?_, ?_⟩
      · have hne : call.runId ++ "x" ≠ call.runId := by
          intro heq
          have hlength := congrArg String.length heq
          simp at hlength
        exact (hother _ hne).timeOf_eq.trans h.time
      · intro name record hmem
        exact (h.releases name record hmem).concat _
      · intro pre call' post hsplit
        rcases concat_eq_append_cons.1 hsplit with ⟨post', -, hops⟩ | ⟨-, rfl, hlast⟩
        · have hmem : Op.deploy call' ∈ ops := by simp [hops]
          have hsame := hother call'.runId (hids call' hmem)
          rcases h.deployed pre call' post' hops with hfree | ⟨specDigest, hpromoted, hleft⟩
          · exact Or.inl (hsame.fresh_iff.2 hfree)
          · exact Or.inr ⟨specDigest, hpromoted, hleft.of_sameAt hsame⟩
        · cases hlast
          cases hcurrent : backend.current s.releases call.agentName with
          | none =>
              left
              have hledger := (hnone (fun release hrelease => by
                rw [hcurrent] at hrelease
                cases hrelease)).1
              change (deployByDigest _ _ _ _ _ _).2.Fresh call.runId
              rw [hledger]
              exact hfresh
          | some release =>
              right
              have hleft := (hsome release (by rw [hcurrent])).1
              rw [h.time] at hleft
              exact ⟨release.specDigest,
                h.releases _ release (RegistryBackend.current_mem hcurrent), hleft⟩
      · intro rid hrid
        have hne : rid ≠ call.runId := fun heq => hrid call List.mem_concat_self heq.symm
        refine (hother rid hne).fresh_iff.2 (h.others rid ?_)
        intro call' hcall'
        exact hrid call' (List.mem_append_left _ hcall')

theorem Traced.nil {ledger : DynRunLedger Payload} (hfresh : ∀ rid, ledger.Fresh rid) :
    Traced fmt sha256Hex ledger.timeOf [] ⟨∅, ledger⟩ where
  time := rfl
  releases := by
    intro name record hmem
    simp [Releases.entries] at hmem
  deployed := by
    intro pre call post hsplit
    simp at hsplit
  others := fun rid _ => hfresh rid

/-- The run that a call begins, if it begins one. -/
def Op.runId? : Op → Option RunId
  | .deploy call => some call.runId
  | _ => none

/-- Where each deployment has an identifier of its own, those of the others differ from it. -/
theorem runId_ne_of_nodup {later : List Op} {call : DeployCall}
    (hids : ((ops ++ Op.deploy call :: later).filterMap Op.runId?).Nodup) {call' : DeployCall}
    (hcall' : Op.deploy call' ∈ ops ∨ Op.deploy call' ∈ later) : call'.runId ≠ call.runId := by
  have hself : Op.runId? (.deploy call) = some call.runId := rfl
  rw [List.filterMap_append, List.filterMap_cons_some hself, List.nodup_append, List.nodup_cons] at hids
  obtain ⟨-, ⟨hlater, -⟩, hapart⟩ := hids
  rcases hcall' with hmem | hmem
  · exact hapart call'.runId (List.mem_filterMap.2 ⟨_, hmem, rfl⟩) call.runId List.mem_cons_self
  · exact fun heq => hlater (heq ▸ List.mem_filterMap.2 ⟨_, hmem, rfl⟩)

variable (backend fmt rfc3339 sha256Hex) in
theorem Traced.after {ledger : DynRunLedger Payload} (hfresh : ∀ rid, ledger.Fresh rid) (ops : List Op)
    (hids : (ops.filterMap Op.runId?).Nodup) :
    Traced fmt sha256Hex ledger.timeOf ops
      (Lib.after (System.step backend fmt rfc3339 sha256Hex) ⟨∅, ledger⟩ ops) := by
  -- The calls are taken away from the end, where the system has just made them.
  induction ops using List.reverseRecOn with
  | nil => exact Traced.nil hfresh
  | append_singleton ops op ih =>
      have hbefore : (ops.filterMap Op.runId?).Nodup := by
        rw [List.filterMap_append, List.nodup_append] at hids
        exact hids.1
      rw [Lib.after_append]
      refine (ih hbefore).step ?_
      rintro call rfl call' hcall'
      have hids' : ((ops ++ Op.deploy call :: []).filterMap Op.runId?).Nodup := hids
      exact runId_ne_of_nodup hids' (Or.inl hcall')

/-- What the state of a run says is what its deployment has left. -/
theorem DeployCall.Left.state_eq {call : DeployCall} {specDigest : ContentDigest}
    {ledger : DynRunLedger Payload} {state : RunState Payload} (h : call.Left timeOf specDigest ledger)
    (hholds : ledger.Holds call.runId state) :
    state.record.specDigest = specDigest ∧ state.record.metadata.agentName = call.agentName ∧
      state.events <+: keptEvents timeOf call specDigest ∧
      (state.record.status = .running ∨
        state.record.status = .completed ∧ state.events = keptEvents timeOf call specDigest) := by
  have hprefix : ∀ n, ∀ events rest : List (RunEvent Payload), events <+: rest →
      stampAll timeOf call.now n events <+: stampAll timeOf call.now n rest := by
    intro n events rest hpre
    induction events generalizing n rest with
    | nil => exact List.nil_prefix
    | cons event events ih =>
        cases rest with
        | nil => cases List.prefix_nil.1 hpre
        | cons first rest =>
            obtain ⟨rfl, htail⟩ := List.cons_prefix_cons.1 hpre
            exact List.cons_prefix_cons.2 ⟨rfl, ih (n + 1) rest htail⟩
  cases h with
  | absent hfresh => exact absurd hfresh (DynRunLedger.Holds.not_fresh hholds)
  | started k hk hheld =>
      have hview := DynRunLedger.Holds.view_eq hholds hheld
      simp only [RunRecord.view, startedState, startedRecord, RunView.mk.injEq] at hview
      obtain ⟨-, hdigest, hmeta, hstatus, -⟩ := hview
      refine ⟨hdigest, by rw [hmeta]; rfl, ?_, Or.inl hstatus⟩
      rw [DynRunLedger.Holds.events_eq hholds hheld]
      exact hprefix 1 _ _ (List.take_prefix k _)
  | completed kept hkept hheld =>
      have hview := DynRunLedger.Holds.view_eq hholds hheld
      simp only [RunRecord.view, MemoryRunLedger.RunState.finish, startedState, startedRecord,
        RunView.mk.injEq] at hview
      obtain ⟨-, hdigest, hmeta, hstatus, -⟩ := hview
      have hevents : state.events = keptEvents timeOf call specDigest := DynRunLedger.Holds.events_eq hholds hheld
      exact ⟨hdigest, by rw [hmeta]; rfl, hevents ▸ List.prefix_rfl, Or.inr ⟨hstatus, hevents⟩⟩

/-- Whatever was promoted, rolled back and deployed, on either backend of the registry and whatever the
connection to the ledger did: a run in the ledger is that of a deployment, of a digest which a promotion for
that agent had before found to be the digest of a full specification; its events are the first ones of that
deployment, and all of them when the run is not running any more. -/
theorem deployed_was_promoted {ledger : DynRunLedger Payload} (hfresh : ∀ rid, ledger.Fresh rid)
    (hids : (ops.filterMap Op.runId?).Nodup) {rid : RunId} {state : RunState Payload}
    (hholds : (Lib.after (System.step backend fmt rfc3339 sha256Hex) ⟨∅, ledger⟩ ops).ledger.Holds rid
      state) :
    ∃ pre call post spec metadata now,
      ops = pre ++ Op.deploy call :: post ∧ call.runId = rid ∧
      Op.promote call.agentName spec metadata now ∈ pre ∧
      PromotableSpec fmt sha256Hex spec ∧
      ContentDigest.tryFrom spec.specDigest = .ok state.record.specDigest ∧
      state.record.metadata.agentName = call.agentName ∧
      state.events <+: keptEvents ledger.timeOf call state.record.specDigest ∧
      (state.record.status = .running ∨ state.record.status = .completed ∧
        state.events = keptEvents ledger.timeOf call state.record.specDigest) := by
  have htraced := Traced.after backend fmt rfc3339 sha256Hex hfresh ops hids
  by_cases hdeployed : ∃ call, Op.deploy call ∈ ops ∧ call.runId = rid
  · obtain ⟨call, hcall, rfl⟩ := hdeployed
    obtain ⟨pre, post, rfl⟩ := List.append_of_mem hcall
    rcases htraced.deployed pre call post rfl with hfree | ⟨specDigest, ⟨spec, metadata, now, hmem, hvalid⟩,
      hleft⟩
    · exact absurd hfree (DynRunLedger.Holds.not_fresh hholds)
    · obtain ⟨hdigest, hagent, hevents, hstatus⟩ := hleft.state_eq hholds
      subst hdigest
      obtain ⟨hspec, htry⟩ := validateSpecForPromote_ok hvalid
      exact ⟨pre, call, post, spec, metadata, now, rfl, rfl, hmem, hspec, htry, hagent, hevents, hstatus⟩
  · have hfree := htraced.others rid fun call hcall hid => hdeployed ⟨call, hcall, hid⟩
    exact absurd hfree (DynRunLedger.Holds.not_fresh hholds)

def plannerPromote : Op :=
  .promote "planner" plannerSpec ⟨none, "ci", none⟩ newYear

/-- A promotion of the specification and a deployment. -/
def plannerOps : List Op :=
  [plannerPromote, .deploy (plannerCall "run-a")]

/-- The state of the deployed run. -/
def plannerState : RunState Payload :=
  completedState (DynRunLedger.memory ∅).timeOf (plannerCall "run-a") plannerDigest ⟨3, none, 7, true⟩

theorem validateSpecForPromote_plannerSpec :
    validateSpecForPromote sampleText sampleSha plannerSpec = .ok plannerDigest := by
  have hdigest : computeDigest sampleText sampleSha plannerSpec.toAgentSpecFields.toValue =
      plannerSpec.specDigest := by
    decide +kernel
  have htry : ContentDigest.tryFrom plannerSpec.specDigest = .ok plannerDigest :=
    ContentDigest.tryFrom_str plannerDigest
  unfold validateSpecForPromote verifyDigest
  rw [hdigest]
  simp only [ne_eq, not_true_eq_false, if_false, htry]
  rfl

theorem holds_plannerState :
    (Lib.after (System.step .memory sampleText sampleTime sampleSha) ⟨∅, .memory ∅⟩ plannerOps).ledger.Holds
      "run-a" plannerState := by
  simp only [plannerOps, plannerPromote, Lib.after_cons, Lib.after_nil, System.step, apiPromote,
    validateSpecForPromote_plannerSpec]
  rfl

/-- It was promoted, and its run is that of the deployment. -/
theorem deployed_was_promoted_planner :
    ∃ pre call post spec metadata now,
      plannerOps = pre ++ Op.deploy call :: post ∧ call.runId = "run-a" ∧
      Op.promote call.agentName spec metadata now ∈ pre ∧
      PromotableSpec sampleText sampleSha spec ∧
      ContentDigest.tryFrom spec.specDigest = .ok plannerDigest := by
  have hids : (plannerOps.filterMap Op.runId?).Nodup := by decide
  obtain ⟨pre, call, post, spec, metadata, now, hops, hid, hpromote, hspec, htry, -⟩ :=
    deployed_was_promoted fresh_memory hids holds_plannerState
  exact ⟨pre, call, post, spec, metadata, now, hops, hid, hpromote, hspec, htry⟩

variable (backend rfc3339) in
/-- Calls that do not deploy a run leave it as it is. -/
theorem Traced.sameAt_after (h : Traced fmt sha256Hex timeOf ops s) {later : List Op}
    (hids : ((ops ++ later).filterMap Op.runId?).Nodup) {rid : RunId}
    (hrid : ∀ call, Op.deploy call ∈ later → call.runId ≠ rid) :
    DynRunLedger.SameAt rid s.ledger
      (Lib.after (System.step backend fmt rfc3339 sha256Hex) s later).ledger := by
  induction later generalizing ops s with
  | nil => exact DynRunLedger.SameAt.refl rid s.ledger
  | cons op later ih =>
      have hnew : ∀ call, op = .deploy call → ∀ call', Op.deploy call' ∈ ops →
          call'.runId ≠ call.runId := by
        rintro call rfl call' hcall'
        exact runId_ne_of_nodup hids (Or.inl hcall')
      have hstep : DynRunLedger.SameAt rid s.ledger
          (s.step backend fmt rfc3339 sha256Hex op).ledger := by
        cases op with
        | promote name spec metadata now => exact DynRunLedger.SameAt.refl rid s.ledger
        | rollback name now => exact DynRunLedger.SameAt.refl rid s.ledger
        | deploy call =>
            have hfresh : s.ledger.Fresh call.runId := h.others call.runId (hnew call rfl)
            obtain ⟨hother, -⟩ := deployByDigest_spec fmt rfc3339 sha256Hex
              (.ok (backend.current s.releases call.agentName)) hfresh
            exact hother rid (hrid call List.mem_cons_self).symm
      refine hstep.trans (ih (h.step hnew) ?_ ?_)
      · simpa only [List.append_assoc, List.singleton_append] using hids
      · exact fun call hcall => hrid call (List.mem_cons_of_mem op hcall)

/-- What a deployment reports stays true: however the calls go on, a later replay of its run that is answered
gives the events of the deployment and the very summary it was reported with, which says that the run has
completed with three events and which digest it ran. -/
theorem deployed_replays {ledger : DynRunLedger Payload} (hfresh : ∀ rid, ledger.Fresh rid)
    {before later : List Op} {call : DeployCall} {result : DeployResult}
    (hids : ((before ++ Op.deploy call :: later).filterMap Op.runId?).Nodup)
    (hok : (deployByDigest fmt rfc3339 sha256Hex
      (.ok (backend.current (Lib.after (System.step backend fmt rfc3339 sha256Hex) ⟨∅, ledger⟩
        before).releases call.agentName)) call
      (Lib.after (System.step backend fmt rfc3339 sha256Hex) ⟨∅, ledger⟩ before).ledger).1 = .ok result)
    {events : List (RunEvent Payload)} {summary : ReplaySummary}
    (hreplay : (replayRun fmt rfc3339 sha256Hex result.runId
      (Lib.after (System.step backend fmt rfc3339 sha256Hex) ⟨∅, ledger⟩
        (before ++ Op.deploy call :: later)).ledger).1 = .ok (events, summary)) :
    result.runId = call.runId ∧ summary = result.summary ∧
      events = keptEvents ledger.timeOf call summary.specDigest ∧
      summary.agentName = call.agentName ∧ summary.status = .completed ∧ summary.eventCount = 3 ∧
      summary.specDigest.str = result.specDigest ∧
      summary.replayDigest = replayDigest fmt rfc3339 sha256Hex events := by
  have hidsBefore : (before.filterMap Op.runId?).Nodup := by
    rw [List.filterMap_append, List.nodup_append] at hids
    exact hids.1
  have htraced := Traced.after backend fmt rfc3339 sha256Hex hfresh before hidsBefore
  rw [Lib.after_append, Lib.after_cons] at hreplay
  generalize hs : Lib.after (System.step backend fmt rfc3339 sha256Hex) ⟨∅, ledger⟩ before = s
    at hok hreplay htraced
  have hnew : ∀ call', Op.deploy call' ∈ before → call'.runId ≠ call.runId :=
    fun call' hcall' => runId_ne_of_nodup hids (Or.inl hcall')
  have hlater : ∀ call', Op.deploy call' ∈ later → call'.runId ≠ call.runId :=
    fun call' hcall' => runId_ne_of_nodup hids (Or.inr hcall')
  -- The deployment had a release, and has left its run completed.
  obtain ⟨-, hnone, hsome⟩ := deployByDigest_spec fmt rfc3339 sha256Hex
    (.ok (backend.current s.releases call.agentName)) (htraced.others call.runId hnew)
  cases hcurrent : backend.current s.releases call.agentName with
  | none =>
      refine absurd hok ((hnone ?_).2 result)
      intro release hrelease
      rw [hcurrent] at hrelease
      cases hrelease
  | some release =>
      obtain ⟨kept, hkept, hheld, hresult⟩ := (hsome release (by rw [hcurrent])).2 result hok
      have hstep : Traced fmt sha256Hex ledger.timeOf (before ++ [Op.deploy call])
          (s.step backend fmt rfc3339 sha256Hex (.deploy call)) := by
        refine htraced.step ?_
        rintro call' ⟨⟩
        exact hnew
      have hids' : (((before ++ [Op.deploy call]) ++ later).filterMap Op.runId?).Nodup := by
        simpa only [List.append_assoc, List.singleton_append] using hids
      have hsame := hstep.sameAt_after backend rfc3339 hids' hlater
      have hstill := hsame.holds_iff.2 hheld
      subst hresult
      obtain ⟨hevents, hsummary⟩ := (replayRun_of_holds fmt rfc3339 sha256Hex hstill).2 events summary hreplay
      rw [htraced.time] at hevents hsummary
      have hsorted : events = keptEvents ledger.timeOf call release.specDigest := by
        rw [hevents]
        exact insertionSort_keptEvents ledger.timeOf call release.specDigest
      have hsummary' : summary.replayDigest = replayDigest fmt rfc3339 sha256Hex events := by
        rw [hsummary, hevents]
        rfl
      refine ⟨rfl, ?_, ?_, ?_, ?_, ?_, ?_, hsummary'⟩
      · rw [hsummary, htraced.time]
      · rw [hsummary]
        exact hsorted
      all_goals
        rw [hsummary]
        rfl

/-- The first deployment after the promotion. -/
def plannerResult : DeployResult :=
  ⟨"run-a", plannerDigest.str, summaryOf sampleText sampleTime sampleSha plannerState⟩

/-- It is replayed after another deployment of the agent and a rollback. -/
theorem deployed_replays_planner :
    ∃ events,
      (replayRun sampleText sampleTime sampleSha "run-a"
        (Lib.after (System.step .memory sampleText sampleTime sampleSha) ⟨∅, .memory ∅⟩
          (plannerOps ++ [.deploy (plannerCall "run-b"), .rollback "planner" newYear])).ledger).1 =
        .ok (events, plannerResult.summary) ∧
      plannerResult.summary.status = .completed ∧ plannerResult.summary.eventCount = 3 ∧
      events = keptEvents (DynRunLedger.memory ∅).timeOf (plannerCall "run-a") plannerDigest := by
  have hids : (([plannerPromote] ++ Op.deploy (plannerCall "run-a") ::
      [.deploy (plannerCall "run-b"), .rollback "planner" newYear]).filterMap Op.runId?).Nodup := by
    decide
  have hok : (deployByDigest sampleText sampleTime sampleSha
      (.ok (RegistryBackend.memory.current (Lib.after (System.step .memory sampleText sampleTime sampleSha)
        ⟨∅, .memory ∅⟩ [plannerPromote]).releases "planner"))
      (plannerCall "run-a") (Lib.after (System.step .memory sampleText sampleTime sampleSha) ⟨∅, .memory ∅⟩
        [plannerPromote]).ledger).1 = .ok plannerResult := by
    simp only [plannerPromote, Lib.after_cons, Lib.after_nil, System.step, apiPromote, validateSpecForPromote_plannerSpec]
    rfl
  have hreplay : (replayRun sampleText sampleTime sampleSha "run-a"
      (Lib.after (System.step .memory sampleText sampleTime sampleSha) ⟨∅, .memory ∅⟩
        (plannerOps ++ [.deploy (plannerCall "run-b"), .rollback "planner" newYear])).ledger).1 =
      .ok (plannerState.events, plannerResult.summary) := by
    simp only [plannerOps, plannerPromote, List.cons_append, List.nil_append, Lib.after_cons, Lib.after_nil, System.step,
      apiPromote, validateSpecForPromote_plannerSpec]
    rfl
  obtain ⟨-, -, hevents, -, hstatus, hcount, -, -⟩ := deployed_replays fresh_memory hids hok hreplay
  exact ⟨_, hreplay, hstatus, hcount, hevents⟩

end System

end Deploy
end Aivcs
