import Aivcs.Domain.Recording

/-!
# Ci.Pipeline — running stages and recording them

`CiPipeline::run` starts a run, executes the enabled stages one after another with an event before and an
event after each, and ends the run as completed or failed.  Every call of the ledger may fail, and then so
does the pipeline.

What the surroundings decide is an `Env`: the hash, the identifier of the run, the clocks, and what the
runner reports of the `n`-th stage it is given, an error or any exit code and success flag.
-/

namespace Aivcs
namespace Ci

open Lib State Domain

structure StageConfig where
  name : String
  command : List String
  timeoutSecs : UInt64
  enabled : Bool

structure StageResult where
  stageName : String
  exitCode : Int32
  stdout : String
  stderr : String
  durationMs : UInt64
  success : Bool

def StageResult.passed (r : StageResult) : Bool :=
  r.success && r.exitCode == 0

structure CiSpec where
  workspacePath : String
  stagesDigest : String
  gitSha : String
  toolchainHash : String

structure PipelineResult where
  runId : RunId
  success : Bool
  stages : List StageResult
  durationMs : UInt64
  specDigest : String

structure Env where
  fmt : F64 → Bytes
  sha256 : Bytes → ContentDigest
  /-- the identifier of the new run -/
  runId : RunId
  /-- the clock of the ledger when event `n` is appended -/
  clock : Nat → Timestamp
  /-- the time in event `n` -/
  eventTime : Nat → Timestamp
  /-- the identifier `Event::new` is given for event `n` -/
  eventId : Nat → String
  /-- what the runner reports of the `n`-th stage executed -/
  executeStage : Nat → StageConfig → Except String StageResult
  /-- how long that took -/
  stageElapsedMs : Nat → UInt64
  elapsedMs : UInt64

/-! ## Failing with the ledger -/

inductive PipelineError where
  | agentSpec (message : String)
  | storage (error : StorageError)
  deriving DecidableEq

abbrev PipelineM (α : Type) : Type :=
  ExceptT PipelineError (StateM (DynRunLedger Value)) α

namespace PipelineM

variable {α β : Type}

def runOn (x : PipelineM α) (ledger : DynRunLedger Value) :
    Except PipelineError α × DynRunLedger Value :=
  (ExceptT.run x).run ledger

def ofResult (x : Except PipelineError α) : PipelineM α :=
  ExceptT.mk (pure x)

@[simp] theorem runOn_ofResult (x : Except PipelineError α) (ledger : DynRunLedger Value) :
    (ofResult x).runOn ledger = (x, ledger) := rfl

/-- Call the ledger; an error is returned with `?`. -/
def attempt (op : DynRunLedger Value → Except StorageError α × DynRunLedger Value) : PipelineM α :=
  ExceptT.mk fun ledger => ((op ledger).1.mapError .storage, (op ledger).2)

theorem runOn_attempt_ok {op : DynRunLedger Value → Except StorageError α × DynRunLedger Value}
    {ledger ledger' : DynRunLedger Value} {a : α} :
    (attempt op).runOn ledger = (.ok a, ledger') ↔ op ledger = (.ok a, ledger') := by
  show ((op ledger).1.mapError PipelineError.storage, (op ledger).2) = (.ok a, ledger') ↔ _
  rcases op ledger with ⟨_ | b, l⟩ <;> simp [Except.mapError]

theorem runOn_bind_ok {x : PipelineM α} {f : α → PipelineM β} {ledger ledger' : DynRunLedger Value}
    {b : β} :
    (x >>= f).runOn ledger = (.ok b, ledger') ↔
      ∃ a mid, x.runOn ledger = (.ok a, mid) ∧ (f a).runOn mid = (.ok b, ledger') := by
  have hbind : (x >>= f).runOn ledger =
      match x.runOn ledger with
      | (.ok a, mid) => (f a).runOn mid
      | (.error e, mid) => (.error e, mid) := by
    unfold runOn
    rw [ExceptT.run_bind, StateT.run_bind]
    generalize (ExceptT.run x).run ledger = r
    rcases r with ⟨_ | a, mid⟩ <;> rfl
  rw [hbind]
  rcases x.runOn ledger with ⟨_ | a, mid⟩
  · simp
  · simp

@[simp] theorem runOn_pure (a : α) (ledger : DynRunLedger Value) :
    (pure a : PipelineM α).runOn ledger = (.ok a, ledger) := rfl

end PipelineM

open PipelineM

/-! ## Events -/

def calledPayload (config : StageConfig) : Value where
  doc := .obj [("command", .arr (config.command.map .str)),
    ("timeout_secs", EventKind.u64 config.timeoutSecs)]
  unique := by
    simp [EventKind.u64]

/-- The members every result has, and the error of a failure. -/
def resultPayload (r : StageResult) (error : Option String) : Value where
  doc := .obj ([("exit_code", .num (.ofInt32 r.exitCode)), ("stdout", .str r.stdout),
    ("stderr", .str r.stderr), ("duration_ms", EventKind.u64 r.durationMs)] ++
      error.toList.map fun text => ("error", .str text))
  unique := by
    cases error <;> simp [EventKind.u64]

/-- What is recorded when a stage has ended. -/
structure Outcome where
  result : StageResult
  kind : EventKind
  payload : Value
  passed : Bool

def outcome (env : Env) (n : Nat) (config : StageConfig) : Outcome :=
  match env.executeStage n config with
  | .error e =>
      -- The runner failed: a result is made up, with its error as `stderr`.
      let result : StageResult := ⟨config.name, -1, "", e, env.stageElapsedMs n, false⟩
      ⟨result, .toolFailed config.name,
        resultPayload result (some ("Stage '" ++ config.name ++ "' execution error: " ++ e)), false⟩
  | .ok result =>
      if result.passed then
        ⟨result, .toolReturned config.name, resultPayload result none, true⟩
      else
        ⟨result, .toolFailed config.name,
          resultPayload result (some ("Stage '" ++ config.name ++ "' exited with code " ++
            toString result.exitCode.toInt)), false⟩

/-! ## The pipeline -/

def CiSpec.toAgentSpec (env : Env) (spec : CiSpec) : Except String AgentSpec :=
  let digest (text : String) : String := (env.sha256 (utf8 text)).str
  (AgentSpec.new env.fmt (fun bs => (env.sha256 bs).str)
    { gitSha := spec.gitSha
      graphDigest := digest "ci"
      promptsDigest := digest spec.stagesDigest
      toolsDigest := digest spec.gitSha
      configDigest := digest spec.toolchainHash }).mapError ("Failed to create AgentSpec: " ++ ·)

def runMetadata (spec : CiSpec) (specDigest : ContentDigest) (stages : List StageConfig) :
    RunMetadata Value where
  gitSha := some spec.gitSha
  agentName := "cargo-ci-" ++ String.ofList (specDigest.str.toList.take 12)
  tags :=
    { doc := .obj [("stages", .arr (stages.map fun s => .str s.name)),
        ("workspace", .str spec.workspacePath), ("toolchain", .str spec.toolchainHash)]
      unique := by simp }
  evaluation := .default

/-- The variables of the loop. -/
structure Progress where
  stageResults : List StageResult
  seq : Nat
  allPassed : Bool

section Run

variable (env : Env) (runId : RunId)

/-- `Event::new` and `recorder.record`. -/
def recordEvent (seq : Nat) (kind : EventKind) (payload : Value) : PipelineM Unit :=
  attempt (GraphRunRecorder.record runId (env.clock seq)
    ⟨env.eventId seq, seq, env.eventTime seq, kind, payload⟩)

/-- The body of the loop. -/
def runStage (config : StageConfig) (p : Progress) : PipelineM Progress :=
  if config.enabled then do
    recordEvent env runId p.seq (.toolCalled config.name) (calledPayload config)
    let ended := outcome env p.stageResults.length config
    recordEvent env runId (p.seq + 1) ended.kind ended.payload
    return ⟨p.stageResults ++ [ended.result], p.seq + 2, p.allPassed && ended.passed⟩
  else
    return p

def runStages : List StageConfig → Progress → PipelineM Progress
  | [], p => return p
  | config :: stages, p => do
      let p ← runStage env runId config p
      runStages stages p

/-- The summary, and the end of the run. -/
def finishRun (p : Progress) : PipelineM Unit :=
  let summary : RunSummary := ⟨p.seq - 1, none, env.elapsedMs.toNat, p.allPassed⟩
  if p.allPassed then
    attempt (GraphRunRecorder.finishOk runId (env.clock p.seq) summary)
  else
    attempt (GraphRunRecorder.finishErr runId (env.clock p.seq) summary)

end Run

/-- `CiPipeline::run`. -/
def run (env : Env) (spec : CiSpec) (stages : List StageConfig) : PipelineM PipelineResult := do
  let agentSpec ← ofResult ((spec.toAgentSpec env).mapError .agentSpec)
  let specDigest := env.sha256 (utf8 agentSpec.specDigest)
  let runId ← attempt (GraphRunRecorder.start env.runId (env.clock 0) specDigest
    (runMetadata spec specDigest stages))
  -- Numbers start at one; a failed stage does not stop the loop.
  let p ← runStages env runId stages ⟨[], 1, true⟩
  finishRun env runId p
  return ⟨runId, p.allPassed, p.stageResults, env.elapsedMs, specDigest.str⟩

end Ci
end Aivcs
