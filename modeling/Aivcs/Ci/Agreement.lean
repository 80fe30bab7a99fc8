import Aivcs.Ci.Gate
import Aivcs.Ci.Pipeline
import Mathlib.Data.String.Basic

/-!
# Ci.Agreement — pipeline, ledger and gate tell the same story

`Recorded` relates the loop of the pipeline to what the ledger holds of the run after some stages: the
numbers of the events have no gaps, the events alternate between the call of a stage and its end, and only a
stage that passed is recorded as returned.  Every turn of the loop keeps it (`runStage_recorded`), and so
does the loop (`runStages_recorded`).  What the gate concludes from such events is what the pipeline
concluded from the results.
-/

namespace Aivcs
namespace Ci

open Lib State Domain PipelineM

/-- The runner reported exit code zero and success. -/
def stagePassed (env : Env) (n : Nat) (config : StageConfig) : Bool :=
  match env.executeStage n config with
  | .error _ => false
  | .ok result => result.passed

/-- Every one of the stages executed passed. -/
def AllPassed (env : Env) (executed : List StageConfig) : Prop :=
  ∀ x ∈ executed.zipIdx, stagePassed env x.2 x.1 = true

/-- Kind and tool of the events of the stages executed. -/
def story (env : Env) (executed : List StageConfig) : List (String × String) :=
  executed.zipIdx.flatMap fun x =>
    [("tool_called", x.1.name),
      (if stagePassed env x.2 x.1 then "tool_returned" else "tool_failed", x.1.name)]

theorem allPassed_concat (env : Env) (executed : List StageConfig) (config : StageConfig) :
    AllPassed env (executed ++ [config]) ↔
      AllPassed env executed ∧ stagePassed env executed.length config = true := by
  simp [AllPassed, List.zipIdx_append, or_imp, forall_and]

theorem story_concat (env : Env) (executed : List StageConfig) (config : StageConfig) :
    story env (executed ++ [config]) = story env executed ++
      [("tool_called", config.name),
        (if stagePassed env executed.length config then "tool_returned" else "tool_failed",
          config.name)] := by
  simp [story, List.zipIdx_append]

/-! ## Recorded events as the gate reads them -/

@[simp] theorem toolName_stamp (event : RunEvent Value) (time : Timestamp) :
    toolName (event.stamp time) = toolName event := rfl

@[simp] theorem exitCode_stamp (event : RunEvent Value) (time : Timestamp) :
    exitCode (event.stamp time) = exitCode event := rfl

theorem toolName_recorded {event : Event} {name : String}
    (hfield : ("tool_name", Doc.str name) ∈ event.kind.fields)
    (hobj : event.payload.doc.isObject = true) : toolName (recorded event) = name := by
  have hget : (mergeKind event.kind event.payload.doc).get? "tool_name" = some (.str name) :=
    get?_mergeKind_field event.kind hobj hfield
  simp [toolName, recorded, hget, Doc.asStr?]

theorem exitCode_recorded {event : Event} {r : StageResult}
    (hfield : "exit_code" ∉ event.kind.fields.map Prod.fst) {error : Option String}
    (hpayload : event.payload = resultPayload r error) :
    exitCode (recorded event) = r.exitCode.toInt := by
  have hget : (mergeKind event.kind event.payload.doc).get? "exit_code" =
      some (.num (.ofInt32 r.exitCode)) := by
    rw [get?_mergeKind_other event.kind _ hfield, hpayload]
    rfl
  have hsmall : r.exitCode.toInt < 2 ^ 63 := by
    have hlt := r.exitCode.toInt_lt
    omega
  simp only [exitCode, recorded, hget, Option.bind_some, asI64?, Number.ofInt32, if_pos hsmall,
    Option.getD_some]

/-- A stage that passed is recorded as returned with exit code zero, the others as failed. -/
theorem outcome_spec (env : Env) (n : Nat) (config : StageConfig) :
    let ended := outcome env n config
    ended.passed = stagePassed env n config ∧
      ended.kind = (if stagePassed env n config then .toolReturned config.name
        else .toolFailed config.name) ∧
      (∃ error, ended.payload = resultPayload ended.result error) ∧
      (stagePassed env n config = true → ended.result.exitCode = 0) := by
  unfold outcome stagePassed
  cases hexec : env.executeStage n config with
  | error e =>
      simp
  | ok result =>
      by_cases hpassed : result.passed = true
      · have hcode : result.exitCode = 0 := by
          simpa using (Bool.and_eq_true_iff.1 hpassed).2
        simp [hpassed, hcode]
      · simp [hpassed]

theorem recorded_called_spec (id : String) (seq : Nat) (t : Timestamp) (config : StageConfig) :
    let e := recorded ⟨id, seq, t, .toolCalled config.name, calledPayload config⟩
    e.kind = "tool_called" ∧ toolName e = config.name :=
  ⟨eventKindStr_eq (.toolCalled config.name), toolName_recorded List.mem_cons_self rfl⟩

theorem recorded_outcome_spec (env : Env) (n : Nat) (config : StageConfig) (id : String) (seq : Nat)
    (t : Timestamp) :
    let ended := outcome env n config
    let e := recorded ⟨id, seq, t, ended.kind, ended.payload⟩
    e.kind = (if stagePassed env n config then "tool_returned" else "tool_failed") ∧
      toolName e = config.name ∧ (e.kind = "tool_returned" → exitCode e = 0) := by
  intro ended e
  rcases outcome_spec env n config with ⟨_, hkind, ⟨error, hpayload⟩, hcode⟩
  have hobj : ended.payload.doc.isObject = true := by
    rw [hpayload]
    rfl
  have htag : e.kind = ended.kind.tag := eventKindStr_eq ended.kind
  by_cases hpassed : stagePassed env n config = true
  · rw [if_pos hpassed] at hkind ⊢
    refine ⟨htag.trans (congrArg EventKind.tag hkind), ?_, fun _ => ?_⟩
    · exact toolName_recorded (hkind ▸ List.mem_cons_self) hobj
    · have hfield : "exit_code" ∉ ended.kind.fields.map Prod.fst := by
        rw [hkind]
        simp [EventKind.fields]
      have hexit : exitCode e = ended.result.exitCode.toInt := exitCode_recorded hfield hpayload
      rw [hexit, hcode hpassed]
      rfl
  · -- A stage that reports success with another exit code is recorded as failed too.
    rw [if_neg hpassed] at hkind ⊢
    have hfailed : e.kind = "tool_failed" := htag.trans (congrArg EventKind.tag hkind)
    refine ⟨hfailed, ?_, fun hreturned => ?_⟩
    · exact toolName_recorded (hkind ▸ List.mem_cons_self) hobj
    · exact absurd (hfailed.symm.trans hreturned) (by decide)

/-! ## The loop -/

/-- What the ledger holds of the run after the stages `executed`. -/
structure Recorded (env : Env) (rid : RunId) (executed : List StageConfig) (p : Progress)
    (state : RunState Value) (ledger : DynRunLedger Value) : Prop where
  holds : ledger.Holds rid state
  running : state.record.status = .running
  results : p.stageResults.length = executed.length
  seq : p.seq = 2 * executed.length + 1
  seqs : state.events.map RunEvent.seq = List.range' 1 (2 * executed.length)
  kinds : (state.events.map fun e => (e.kind, toolName e)) = story env executed
  codes : ∀ e ∈ state.events, e.kind = "tool_returned" → exitCode e = 0
  passed : p.allPassed = true ↔ AllPassed env executed

section Loop

variable {env : Env} {rid : RunId}

/-- The ledger returns the events by number: the order in which they were appended. -/
theorem Recorded.sorted {executed : List StageConfig} {p : Progress} {state : RunState Value}
    {ledger : DynRunLedger Value} (hrec : Recorded env rid executed p state ledger) :
    state.events.insertionSort (fun a b => a.seq ≤ b.seq) = state.events := by
  have hlt : (state.events.map RunEvent.seq).Pairwise (· < ·) := by
    rw [hrec.seqs]
    exact List.pairwise_lt_range'
  exact List.Pairwise.insertionSort_eq ((List.pairwise_map.1 hlt).imp Nat.le_of_lt)

/-- Only numbers below the next one have been given out. -/
theorem Recorded.seq_lt {executed : List StageConfig} {p : Progress} {state : RunState Value}
    {ledger : DynRunLedger Value} (hrec : Recorded env rid executed p state ledger) :
    ∀ n ∈ state.events.map RunEvent.seq, n < p.seq := by
  intro n hn
  rw [hrec.seqs, List.mem_range'_1] at hn
  have hseq := hrec.seq
  omega

theorem recordEvent_ok {state : RunState Value} {ledger ledger' : DynRunLedger Value}
    (hholds : ledger.Holds rid state) (hrunning : state.record.status = .running) {seq : Nat}
    (hnew : ∀ n ∈ state.events.map RunEvent.seq, n ≠ seq) {kind : EventKind} {payload : Value}
    (h : (recordEvent env rid seq kind payload).runOn ledger = (.ok (), ledger')) :
    ∃ time, ledger'.Holds rid { state with events := state.events ++
      [(recorded ⟨env.eventId seq, seq, env.eventTime seq, kind, payload⟩).stamp time] } := by
  refine DynRunLedger.appendEvent_ok hholds hrunning ?_ (runOn_attempt_ok.1 h)
  intro e he
  exact hnew e.seq (List.mem_map_of_mem he)

/-- One stage that is executed. -/
theorem Recorded.stage {executed : List StageConfig} {p : Progress} {state : RunState Value}
    {ledger mid ledger' : DynRunLedger Value} (hrec : Recorded env rid executed p state ledger)
    {config : StageConfig}
    (hcalled : (recordEvent env rid p.seq (.toolCalled config.name)
      (calledPayload config)).runOn ledger = (.ok (), mid))
    (hended : (recordEvent env rid (p.seq + 1) (outcome env p.stageResults.length config).kind
      (outcome env p.stageResults.length config).payload).runOn mid = (.ok (), ledger')) :
    ∃ state', Recorded env rid (executed ++ [config])
      ⟨p.stageResults ++ [(outcome env p.stageResults.length config).result], p.seq + 2,
        p.allPassed && (outcome env p.stageResults.length config).passed⟩ state' ledger' := by
  have hseq := hrec.seq
  -- The runner is asked by the number of results so far: that of the stages executed.
  rw [hrec.results] at hended ⊢
  have hold := hrec.seq_lt
  -- The event of the call gets the next number, and that of the end the one after it.
  obtain ⟨time, hmid⟩ := recordEvent_ok hrec.holds hrec.running (fun n hn => (hold n hn).ne) hcalled
  let called := (recorded ⟨env.eventId p.seq, p.seq, env.eventTime p.seq, .toolCalled config.name,
    calledPayload config⟩).stamp time
  have hnext : ∀ n ∈ (state.events ++ [called]).map RunEvent.seq, n ≠ p.seq + 1 := by
    intro n hn
    rw [List.map_append, List.mem_append, List.map_singleton, List.mem_singleton] at hn
    rcases hn with hn | rfl
    · exact (Nat.lt_succ_of_lt (hold n hn)).ne
    · exact (Nat.lt_succ_self p.seq).ne
  obtain ⟨time', hholds⟩ := recordEvent_ok hmid hrec.running hnext hended
  have hcall := recorded_called_spec (env.eventId p.seq) p.seq (env.eventTime p.seq) config
  have hend := recorded_outcome_spec env executed.length config (env.eventId (p.seq + 1))
    (p.seq + 1) (env.eventTime (p.seq + 1))
  refine ⟨_, hholds, hrec.running, ?_, ?_, ?_, ?_, ?_, ?_⟩
  · simp [hrec.results]
  · simp only [List.length_append, List.length_singleton]
    omega
  · have hlength : 2 * (executed ++ [config]).length = 2 * executed.length + 1 + 1 := by
      simp only [List.length_append, List.length_singleton]
      omega
    rw [hlength, List.range'_1_concat, List.range'_1_concat, ← hrec.seqs]
    simp only [List.map_append, List.map_singleton, RunEvent.stamp_seq, recorded]
    rw [hseq, Nat.add_comm 1, Nat.add_comm 1]
  · simp only [List.map_append, List.map_cons, List.map_nil, RunEvent.stamp_kind, toolName_stamp,
      hrec.kinds, story_concat, hcall.1, hcall.2, hend.1, hend.2.1, List.append_assoc,
      List.singleton_append]
  · intro e he
    simp only [List.mem_append, List.mem_singleton] at he
    rcases he with (he | rfl) | rfl
    · exact hrec.codes e he
    · intro hkind
      exact absurd (hcall.1.symm.trans hkind) (by decide)
    · exact hend.2.2
  · rw [Bool.and_eq_true, hrec.passed, (outcome_spec env executed.length config).1, allPassed_concat]

/-- What a turn of the loop adds to the stages executed. -/
def executedBy (config : StageConfig) : List StageConfig :=
  [config].filter (·.enabled)

theorem runStage_recorded {executed : List StageConfig} {p p' : Progress} {state : RunState Value}
    {ledger ledger' : DynRunLedger Value} (hrec : Recorded env rid executed p state ledger)
    {config : StageConfig} (h : (runStage env rid config p).runOn ledger = (.ok p', ledger')) :
    ∃ state', Recorded env rid (executed ++ executedBy config) p' state' ledger' := by
  unfold runStage at h
  cases henabled : config.enabled with
  | false =>
      rw [henabled, if_neg Bool.false_ne_true, runOn_pure] at h
      rcases Prod.mk.inj h with ⟨hp, rfl⟩
      obtain rfl : p = p' := Except.ok.inj hp
      refine ⟨state, ?_⟩
      simpa [executedBy, henabled] using hrec
  | true =>
      rw [henabled, if_pos rfl] at h
      obtain ⟨_, mid, hcalled, h⟩ := runOn_bind_ok.1 h
      obtain ⟨_, mid', hended, h⟩ := runOn_bind_ok.1 h
      rw [runOn_pure] at h
      rcases Prod.mk.inj h with ⟨hp, rfl⟩
      obtain rfl := Except.ok.inj hp
      obtain ⟨state', hrec'⟩ := hrec.stage hcalled hended
      refine ⟨state', ?_⟩
      simpa [executedBy, henabled] using hrec'

theorem runStages_recorded {stages executed : List StageConfig} {p p' : Progress}
    {state : RunState Value} {ledger ledger' : DynRunLedger Value}
    (hrec : Recorded env rid executed p state ledger)
    (h : (runStages env rid stages p).runOn ledger = (.ok p', ledger')) :
    ∃ state', Recorded env rid (executed ++ stages.filter (·.enabled)) p' state' ledger' := by
  induction stages generalizing executed p state ledger with
  | nil =>
      rw [runStages, runOn_pure] at h
      rcases Prod.mk.inj h with ⟨hp, rfl⟩
      obtain rfl : p = p' := Except.ok.inj hp
      exact ⟨state, by simpa using hrec⟩
  | cons config stages ih =>
      obtain ⟨q, mid, hstage, hrest⟩ := runOn_bind_ok.1 h
      obtain ⟨state₁, hrec₁⟩ := runStage_recorded hrec hstage
      obtain ⟨state', hrec'⟩ := ih hrec₁ hrest
      refine ⟨state', ?_⟩
      rwa [List.append_assoc, executedBy, ← List.filter_append, List.singleton_append] at hrec'

end Loop

/-! ## The gate -/

/-- A stage that failed is in the story, and if none did every stage called is recorded as returned. -/
theorem mem_story_failed {env : Env} {executed : List StageConfig} :
    (∃ t, ("tool_failed", t) ∈ story env executed) ↔ ¬ AllPassed env executed := by
  unfold AllPassed
  push Not
  constructor
  · rintro ⟨t, ht⟩
    rcases List.mem_flatMap.1 ht with ⟨x, hx, hmem⟩
    refine ⟨x, hx, fun hpassed => ?_⟩
    simp [hpassed] at hmem
  · rintro ⟨x, hx, hnot⟩
    exact ⟨x.1.name, List.mem_flatMap.2 ⟨x, hx, by simp [hnot]⟩⟩

theorem mem_story_returned {env : Env} {executed : List StageConfig}
    (hall : AllPassed env executed) {t : String} (h : ("tool_called", t) ∈ story env executed) :
    ("tool_returned", t) ∈ story env executed := by
  rcases List.mem_flatMap.1 h with ⟨x, hx, hmem⟩
  refine List.mem_flatMap.2 ⟨x, hx, ?_⟩
  simpa [hall x hx] using hmem

theorem evaluate_passed_of_story {env : Env} {executed : List StageConfig}
    {events : List (RunEvent Value)}
    (hkinds : (events.map fun e => (e.kind, toolName e)) = story env executed)
    (hcodes : ∀ e ∈ events, e.kind = "tool_returned" → exitCode e = 0) (order : Iteration String) :
    (evaluate order events).passed = true ↔ AllPassed env executed := by
  have hmem : ∀ k t, (k, t) ∈ story env executed ↔ ∃ e ∈ events, e.kind = k ∧ toolName e = t := by
    intro k t
    rw [← hkinds]
    simp
  -- No event is returned with another exit code, so what reports a failure is a `tool_failed`.
  have hreports : (∀ e ∈ events, ¬ Reports e) ↔ AllPassed env executed := by
    rw [← not_iff_not, ← mem_story_failed]
    push Not
    constructor
    · rintro ⟨e, he, hfailed | ⟨hreturned, hcode⟩⟩
      · exact ⟨toolName e, (hmem _ _).2 ⟨e, he, hfailed, rfl⟩⟩
      · exact absurd (hcodes e he hreturned) hcode
    · rintro ⟨t, ht⟩
      rcases (hmem _ _).1 ht with ⟨e, he, hfailed, _⟩
      exact ⟨e, he, .inl hfailed⟩
  rw [evaluate_passed_iff, hreports, and_iff_left_iff_imp]
  -- The gate's second condition follows: where all passed, every call has its return.
  intro hall e he hcalled
  have hreturned := mem_story_returned hall ((hmem _ _).2 ⟨e, he, hcalled, rfl⟩)
  rcases (hmem _ _).1 hreturned with ⟨e', he', hkind', hname'⟩
  exact ⟨e', he', ⟨hkind', hcodes e' he' hkind'⟩, hname'⟩

/-! ## The whole run -/

theorem finishRun_ok {env : Env} {rid : RunId} {p : Progress} {state : RunState Value}
    {ledger ledger' : DynRunLedger Value} (hholds : ledger.Holds rid state)
    (hrunning : state.record.status = .running)
    (h : (finishRun env rid p).runOn ledger = (.ok (), ledger')) :
    ∃ kept : RunSummary, kept.totalEvents = p.seq - 1 ∧
      ledger'.Holds rid (MemoryRunLedger.RunState.finish
        (if p.allPassed then .completed else .failed) kept (env.clock p.seq) state) := by
  unfold finishRun at h
  cases hpassed : p.allPassed with
  | true =>
      rw [hpassed] at h
      exact DynRunLedger.completeRun_ok hholds hrunning (runOn_attempt_ok.1 h)
  | false =>
      rw [hpassed] at h
      exact DynRunLedger.failRun_ok hholds hrunning (runOn_attempt_ok.1 h)

/-- What is recorded before the first stage. -/
theorem recorded_start (env : Env) {rid : RunId} {ledger : DynRunLedger Value}
    {record : RunRecord Value} (hrunning : record.status = .running)
    (hholds : ledger.Holds rid ⟨record, []⟩) :
    Recorded env rid [] ⟨[], 1, true⟩ ⟨record, []⟩ ledger where
  holds := hholds
  running := hrunning
  results := rfl
  seq := rfl
  seqs := rfl
  kinds := rfl
  codes := by
    intro e he
    cases he
  passed := by simp [AllPassed]

/-- The run of a pipeline that returned: the loop, and the end of the run. -/
theorem run_ok {env : Env} {spec : CiSpec} {stages : List StageConfig} {result : PipelineResult}
    {ledger ledger' : DynRunLedger Value} (hfresh : ledger.Fresh env.runId)
    (h : (run env spec stages).runOn ledger = (.ok result, ledger')) :
    ∃ (p : Progress) (state : RunState Value) (mid : DynRunLedger Value) (kept : RunSummary),
      Recorded env env.runId (stages.filter (·.enabled)) p state mid ∧
        result.runId = env.runId ∧ result.success = p.allPassed ∧ kept.totalEvents = p.seq - 1 ∧
        ledger'.Holds env.runId (MemoryRunLedger.RunState.finish
          (if p.allPassed then .completed else .failed) kept (env.clock p.seq) state) := by
  -- The result is `ok`, so every step before it was.
  obtain ⟨agentSpec, l₁, hspec, h⟩ := runOn_bind_ok.1 h
  obtain ⟨rid, l₂, hstart, h⟩ := runOn_bind_ok.1 h
  obtain ⟨p, l₃, hloop, h⟩ := runOn_bind_ok.1 h
  obtain ⟨_, l₄, hfinish, h⟩ := runOn_bind_ok.1 h
  rw [runOn_ofResult] at hspec
  obtain rfl : ledger = l₁ := (Prod.mk.inj hspec).2
  rcases DynRunLedger.createRun_ok hfresh (runOn_attempt_ok.1 hstart) with ⟨rfl, hholds⟩
  obtain ⟨state, hrec⟩ := runStages_recorded (recorded_start env rfl hholds) hloop
  obtain ⟨kept, htotal, hended⟩ := finishRun_ok hrec.holds hrec.running hfinish
  rw [runOn_pure] at h
  rcases Prod.mk.inj h with ⟨hresult, rfl⟩
  obtain rfl := Except.ok.inj hresult
  exact ⟨p, state, l₃, kept, hrec, rfl, rfl, htotal, hended⟩

/-- When the pipeline returns, the events it stored are numbered without gaps, two for each enabled stage
and in their order; and the result, the status of the run and the gate all say whether every enabled stage
passed. -/
theorem pipeline_ledger_gate_agree (order : Iteration String) {env : Env} {spec : CiSpec}
    {stages : List StageConfig} {result : PipelineResult} {ledger ledger' : DynRunLedger Value}
    (hfresh : ledger.Fresh env.runId)
    (h : (run env spec stages).runOn ledger = (.ok result, ledger')) :
    ∃ events record summary,
      ledger'.getEvents result.runId = .ok events ∧ ledger'.getRun result.runId = .ok record ∧
      record.summary = some summary ∧
      events.map RunEvent.seq = List.range' 1 summary.totalEvents ∧
      summary.totalEvents = 2 * (stages.filter (·.enabled)).length ∧
      (events.map fun e => (e.kind, toolName e)) = story env (stages.filter (·.enabled)) ∧
      (record.status = .completed ∨ record.status = .failed) ∧
      (result.success = true ↔ AllPassed env (stages.filter (·.enabled))) ∧
      (record.status = .completed ↔ AllPassed env (stages.filter (·.enabled))) ∧
      ((evaluate order events).passed = true ↔ AllPassed env (stages.filter (·.enabled))) := by
  obtain ⟨p, state, mid, kept, hrec, hrid, hsuccess, htotal, hholds⟩ := run_ok hfresh h
  have hn : kept.totalEvents = 2 * (stages.filter (·.enabled)).length := by
    rw [htotal, hrec.seq, Nat.add_sub_cancel]
  have hevents := DynRunLedger.getEvents_of_holds hholds
  obtain ⟨record, hrecord, hview⟩ := DynRunLedger.getRun_of_holds hholds
  have hstatus : record.status = if p.allPassed then .completed else .failed :=
    congrArg RunView.status hview
  have hsummary : record.summary = some kept := congrArg RunView.summary hview
  refine ⟨state.events, record, kept, ?_, ?_, hsummary, ?_, hn, hrec.kinds, ?_, ?_, ?_, ?_⟩
  · rw [hrid, hevents]
    exact congrArg Except.ok hrec.sorted
  · rw [hrid, hrecord]
  · rw [hrec.seqs, hn]
  · rw [hstatus]
    cases p.allPassed
    · exact .inr rfl
    · exact .inl rfl
  · rw [hsuccess, hrec.passed]
  · rw [hstatus, ← hrec.passed]
    cases p.allPassed <;> simp
  · exact evaluate_passed_of_story hrec.kinds hrec.codes order

/-! ## A run with a failed and a skipped stage -/

/-- The SHA-256 digests of the texts hashed in the run below. -/
def sampleDigests : List (Bytes × ContentDigest) :=
  [(utf8 "ci", ⟨"1b158839f8aa339e89bb50b1603e90ec68e0fd5565fe10a7cb32729fddf7070a",
      by decide +kernel, by decide +kernel⟩),
    (utf8 "ae632494e564c87edcd09d26c08763434c57491eaaebf2a8e24d9b88bb757723",
      ⟨"f99e670fbd330431aa2e0943cb96654ac0538d7c664be799fb7bc92d696333aa",
        by decide +kernel, by decide +kernel⟩),
    (utf8 "abc123", ⟨"6ca13d52ca70c883e0f0bb101e425a89e8624de51db2d2392593af6a84118090",
      by decide +kernel, by decide +kernel⟩),
    (utf8 "rustc", ⟨"6fcd351889eb0caf54c459904e996ac7480a7843a5e8a25c8c6b59a0f975ca19",
      by decide +kernel, by decide +kernel⟩),
    (utf8 ("\x7b\"config_digest\":" ++
        "\"6fcd351889eb0caf54c459904e996ac7480a7843a5e8a25c8c6b59a0f975ca19\"," ++
        "\"git_sha\":\"abc123\",\"graph_digest\":" ++
        "\"1b158839f8aa339e89bb50b1603e90ec68e0fd5565fe10a7cb32729fddf7070a\"," ++
        "\"prompts_digest\":" ++
        "\"f99e670fbd330431aa2e0943cb96654ac0538d7c664be799fb7bc92d696333aa\"," ++
        "\"tools_digest\":" ++
        "\"6ca13d52ca70c883e0f0bb101e425a89e8624de51db2d2392593af6a84118090\"\x7d"),
      ⟨"9106fbe693473ca9aebfe679b2e51945f210173e6f55af42943311f045aedc53",
        by decide +kernel, by decide +kernel⟩),
    (utf8 "9106fbe693473ca9aebfe679b2e51945f210173e6f55af42943311f045aedc53",
      ⟨"bb307186cf7b4a2d9f9cdad726c079b123a062637d215951b3cd9d5e6e9d691b",
        by decide +kernel, by decide +kernel⟩)]

/-- The first stage passes, the second one exits with code 101; no float is written. -/
def sampleEnv : Env where
  fmt _ := [48, 46, 48]
  sha256 bs := (sampleDigests.lookup bs).getD (.replicate '0' rfl)
  runId := "run"
  clock n := n
  eventTime n := n
  eventId _ := "event"
  executeStage n config := .ok
    ⟨config.name, if n = 0 then 0 else 101, "", "", 100, decide (n = 0)⟩
  stageElapsedMs _ := 100
  elapsedMs := 250

def sampleStages : List StageConfig :=
  [⟨"cargo_fmt", ["cargo", "fmt"], 60, true⟩, ⟨"cargo_clippy", ["cargo", "clippy"], 60, false⟩,
    ⟨"cargo_test", ["cargo", "test"], 60, true⟩]

def sampleSpec : CiSpec :=
  ⟨".", "ae632494e564c87edcd09d26c08763434c57491eaaebf2a8e24d9b88bb757723", "abc123", "rustc"⟩

def sampleLedger : DynRunLedger Value :=
  .surreal true ⟨[], []⟩ fun _ _ => .answered

theorem sample_run_returns :
    ∃ result ledger', (run sampleEnv sampleSpec sampleStages).runOn sampleLedger =
      (.ok result, ledger') := by
  have hok : ((run sampleEnv sampleSpec sampleStages).runOn sampleLedger).1.isOk = true := by
    decide +kernel
  generalize (run sampleEnv sampleSpec sampleStages).runOn sampleLedger = r at hok
  obtain ⟨_ | result, ledger'⟩ := r
  · cases hok
  · exact ⟨result, ledger', rfl⟩

/-- The gate fails on the events of this run, and the run is recorded as failed. -/
theorem pipeline_ledger_gate_agree_on_failed_stage :
    ∃ result ledger' events record,
      (run sampleEnv sampleSpec sampleStages).runOn sampleLedger = (.ok result, ledger') ∧
      ledger'.getEvents result.runId = .ok events ∧ ledger'.getRun result.runId = .ok record ∧
      events.map RunEvent.seq = [1, 2, 3, 4] ∧
      (events.map fun e => (e.kind, toolName e)) =
        [("tool_called", "cargo_fmt"), ("tool_returned", "cargo_fmt"),
          ("tool_called", "cargo_test"), ("tool_failed", "cargo_test")] ∧
      ¬ result.success = true ∧ record.status = .failed ∧
      ¬ (evaluate (.sorted String) events).passed = true := by
  obtain ⟨result, ledger', hrun⟩ := sample_run_returns
  have hfresh : sampleLedger.Fresh sampleEnv.runId := ⟨rfl, rfl⟩
  have hnot : ¬ AllPassed sampleEnv (sampleStages.filter (·.enabled)) := by
    intro h
    exact absurd (h (⟨"cargo_test", ["cargo", "test"], 60, true⟩, 1) (by simp [sampleStages]))
      (by decide)
  obtain ⟨events, record, summary, hevents, hrecord, _, hseqs, htotal, hkinds, hstatus, hsuccess,
    hcompleted, hgate⟩ := pipeline_ledger_gate_agree (.sorted String) hfresh hrun
  refine ⟨result, ledger', events, record, hrun, hevents, hrecord, ?_, ?_, ?_, ?_, ?_⟩
  · rw [hseqs, htotal]
    rfl
  · rw [hkinds]
    rfl
  · rw [hsuccess]
    exact hnot
  · exact hstatus.resolve_left fun h => hnot (hcompleted.1 h)
  · rw [hgate]
    exact hnot

end Ci
end Aivcs
