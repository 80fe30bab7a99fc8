import Aivcs.Domain.Digest
import Aivcs.Lib.Interleaving
import Aivcs.Lib.Map

/-!
# Sandbox.ToolExecutor — tool calls behind a policy, with retries and a circuit breaker

`tooling`: a call is checked against the registry, the policy and the input schema, then the failures of its
tool are looked up, and the adapter is called until it answers or the retries are used up.  Executions share
the counts of failures; each is a program whose calls are single accesses to the counts or attempts at the
adapter, and any number of executions run at once.

* `traces_execute_iff` — what one execution does, whatever it is answered;
* `stays_open` — once a breaker is open and nobody is past it, the tool is never called again;
* `stopped_of_failed` — where a breaker stops an execution, enough others have failed.
-/

namespace Aivcs
namespace Sandbox
namespace Tooling

open Aivcs.Lib
open Aivcs.Domain (Number)

/-! ## The registry and the policy -/

inductive ToolCapability where
  | shellExec
  | fileRead
  | fileWrite
  | gitRead
  | gitWrite
  | networkFetch
  | custom (name : String)
  deriving DecidableEq

def ToolCapability.asPolicyKey : ToolCapability → String
  | shellExec => "shell_exec"
  | fileRead => "file_read"
  | fileWrite => "file_write"
  | gitRead => "git_read"
  | gitWrite => "git_write"
  | networkFetch => "network_fetch"
  | custom name => "custom:" ++ name

structure JsonFieldSchema where
  requiredFields : List String

structure ToolSpec where
  name : String
  capability : ToolCapability
  inputSchema : JsonFieldSchema
  outputSchema : JsonFieldSchema

inductive SchemaStage where
  | input
  | output
  deriving DecidableEq

inductive ToolExecutionError where
  | unknownTool (toolName : String)
  | duplicateTool (toolName : String)
  | policyDenied (toolName reason : String)
  | approvalRequired (toolName reason : String)
  | schemaViolation (toolName : String) (stage : SchemaStage) (field : String)
  | timeout (toolName : String) (timeoutMs : UInt64)
  | adapter (toolName message : String)
  | circuitOpen (toolName : String) (failures : UInt32)
  deriving DecidableEq

structure ToolRegistry where
  tools : Map String ToolSpec
  /-- Tools are under their names. -/
  named : ∀ name spec, tools name = some spec → spec.name = name

namespace ToolRegistry

theorem named_empty (name : String) (spec : ToolSpec) (h : (∅ : Map String ToolSpec) name = some spec) :
    spec.name = name := by
  cases h

def empty : ToolRegistry :=
  ⟨∅, named_empty⟩

theorem named_insert (registry : ToolRegistry) (spec : ToolSpec) (name : String) (spec' : ToolSpec)
    (h : registry.tools.insert spec.name spec name = some spec') : spec'.name = name := by
  rcases Map.insert_eq_some h with ⟨rfl, rfl⟩ | ⟨-, hold⟩
  · rfl
  · exact registry.named name spec' hold

def register (registry : ToolRegistry) (spec : ToolSpec) : Except ToolExecutionError ToolRegistry :=
  match registry.tools spec.name with
  | some _ => .error (.duplicateTool spec.name)
  | none => .ok ⟨registry.tools.insert spec.name spec, registry.named_insert spec⟩

end ToolRegistry

inductive PolicyAction where
  | allow
  | deny
  | requireApproval
  deriving DecidableEq

structure PolicyMatrix where
  byCapability : Map ToolCapability PolicyAction
  byTool : Map String PolicyAction

namespace PolicyMatrix

def default : PolicyMatrix :=
  ⟨∅, ∅⟩

def withCapability (policy : PolicyMatrix) (capability : ToolCapability) (action : PolicyAction) :
    PolicyMatrix :=
  { policy with byCapability := policy.byCapability.insert capability action }

def withToolAction (policy : PolicyMatrix) (toolName : String) (action : PolicyAction) : PolicyMatrix :=
  { policy with byTool := policy.byTool.insert toolName action }

def safeDefaults : PolicyMatrix :=
  (((default.withCapability .shellExec .requireApproval).withCapability .fileWrite
    .requireApproval).withCapability .gitWrite .requireApproval).withCapability .networkFetch .requireApproval

def actionFor (policy : PolicyMatrix) (tool : ToolSpec) : PolicyAction :=
  match policy.byTool tool.name with
  | some action => action
  | none => (policy.byCapability tool.capability).getD .allow

end PolicyMatrix

/-! ## Executions -/

structure ToolInvocation where
  name : String
  input : Doc Number

structure ToolExecutionConfig where
  timeoutMs : UInt64
  maxRetries : UInt32
  circuitBreakerThreshold : UInt32

def ToolExecutionConfig.default : ToolExecutionConfig :=
  ⟨5000, 0, 3⟩

/-- `ToolTelemetry`; its status is always `Succeeded`. -/
structure ToolTelemetry where
  runId : Option String
  toolName : String
  retries : UInt32
  durationMs : Nat

structure ToolExecutionReport where
  output : Doc Number
  telemetry : ToolTelemetry

/-- The executor without its adapter and its counts. -/
structure ToolExecutor where
  registry : ToolRegistry
  policy : PolicyMatrix
  config : ToolExecutionConfig

/-- One access to the counts, one attempt at the adapter, or a look at the clock. -/
inductive Access where
  | readFailures (toolName : String)
  | callAdapter (toolName : String) (input : Doc Number)
  | incrementFailure (toolName : String)
  | resetFailure (toolName : String)
  | elapsed

/-- An attempt that times out has no answer. -/
abbrev Access.Ans : Access → Type
  | readFailures _ => UInt32
  | callAdapter _ _ => Option (Except String (Doc Number))
  | incrementFailure _ => Unit
  | resetFailure _ => Unit
  | elapsed => Nat

def Access.calls (toolName : String) : Access → Bool
  | callAdapter name _ => name = toolName
  | _ => false

def Access.raises (toolName : String) : Access → Bool
  | incrementFailure name => name = toolName
  | _ => false

abbrev Program (α : Type) : Type :=
  Proc Access Access.Ans α

def perform (op : Access) : Program op.Ans :=
  Proc.perform op

abbrev Outcome : Type :=
  Except ToolExecutionError ToolExecutionReport

/-- The first required field that is missing. -/
def missingField (schema : JsonFieldSchema) (payload : Doc Number) : Option String :=
  schema.requiredFields.find? fun field => (payload.get? field).isNone

def validateSchema (toolName : String) (stage : SchemaStage) (schema : JsonFieldSchema)
    (payload : Doc Number) : Except ToolExecutionError Unit :=
  match missingField schema payload with
  | some field => .error (.schemaViolation toolName stage field)
  | none => .ok ()

namespace ToolExecutor

variable (e : ToolExecutor) (invocation : ToolInvocation) (runId : Option String)

/-- The checks before the counts are looked at. -/
def precheck : Except ToolExecutionError ToolSpec :=
  match e.registry.tools invocation.name with
  | none => .error (.unknownTool invocation.name)
  | some spec =>
      match e.policy.actionFor spec with
      | .deny => .error (.policyDenied invocation.name
          ("capability '" ++ spec.capability.asPolicyKey ++ "' is denied"))
      | .requireApproval => .error (.approvalRequired invocation.name
          ("capability '" ++ spec.capability.asPolicyKey ++ "' requires explicit approval"))
      | .allow =>
          (validateSchema invocation.name .input spec.inputSchema invocation.input).map fun _ => spec

/-- What becomes of an output. -/
def accept (spec : ToolSpec) (retries : UInt32) (output : Doc Number) : Program Outcome :=
  match validateSchema invocation.name .output spec.outputSchema output with
  | .error err => pure (.error err)
  | .ok _ => do
      perform (.resetFailure invocation.name)
      let durationMs ← perform .elapsed
      pure (.ok ⟨output, ⟨runId, invocation.name, retries, durationMs⟩⟩)

def giveUp (err : ToolExecutionError) : Program Outcome := do
  perform (.incrementFailure invocation.name)
  pure (.error err)

/-- The loop over the attempts, of which so many are left. -/
def attempts (spec : ToolSpec) : Nat → UInt32 → UInt32 → Program Outcome
  | 0, _, _ => pure (.error (.adapter invocation.name "unreachable execution state"))
  | n + 1, attempt, retries => do
      match ← perform (.callAdapter invocation.name invocation.input) with
      | none =>
          if attempt < e.config.maxRetries then attempts spec n (attempt + 1) (retries + 1)
          else giveUp invocation (.timeout invocation.name e.config.timeoutMs)
      | some (.error message) =>
          if attempt < e.config.maxRetries then attempts spec n (attempt + 1) (retries + 1)
          else giveUp invocation (.adapter invocation.name message)
      | some (.ok output) => accept invocation runId spec retries output

/-- The breaker is open at so many failures. -/
def Opens (failures : UInt32) : Prop :=
  0 < e.config.circuitBreakerThreshold ∧ e.config.circuitBreakerThreshold ≤ failures

instance (failures : UInt32) : Decidable (e.Opens failures) :=
  inferInstanceAs (Decidable (_ ∧ _))

/-- The number of attempts is a `u32`, and one more than the largest is none. -/
def execute : Program Outcome :=
  match e.precheck invocation with
  | .error err => pure (.error err)
  | .ok spec => do
      let currentFailures ← perform (.readFailures invocation.name)
      if e.Opens currentFailures then
        pure (.error (.circuitOpen invocation.name currentFailures))
      else attempts e invocation runId spec (e.config.maxRetries + 1).toNat 0 0

end ToolExecutor

/-! ## One execution -/

abbrev Trace : Type :=
  List ((op : Access) × op.Ans)

/-- An attempt that failed: it timed out, or the adapter answered with a message. -/
abbrev Failure : Type :=
  Option String

def Failure.answer : Failure → Option (Except String (Doc Number))
  | none => none
  | some message => some (.error message)

section Execution

variable (e : ToolExecutor) (invocation : ToolInvocation) (runId : Option String) (spec : ToolSpec)

def attempted (answer : Option (Except String (Doc Number))) : (op : Access) × op.Ans :=
  ⟨.callAdapter invocation.name invocation.input, answer⟩

def Failure.error : Failure → ToolExecutionError
  | none => .timeout invocation.name e.config.timeoutMs
  | some message => .adapter invocation.name message

/-- How an execution ends when so many of its attempts have failed. -/
inductive Ending (retriesLeft : Nat) (retries : UInt32) (failed : Nat) : Trace → Outcome → Prop
  | succeeded (output : Doc Number) (durationMs : Nat) (h : missingField spec.outputSchema output = none) :
      Ending retriesLeft retries failed
        [attempted invocation (some (.ok output)), ⟨.resetFailure invocation.name, ()⟩,
          ⟨.elapsed, durationMs⟩]
        (.ok ⟨output, ⟨runId, invocation.name, retries + UInt32.ofNat failed, durationMs⟩⟩)
  | badOutput (output : Doc Number) (field : String)
      (h : missingField spec.outputSchema output = some field) :
      Ending retriesLeft retries failed [attempted invocation (some (.ok output))]
        (.error (.schemaViolation invocation.name .output field))
  | failed (failure : Failure) (h : failed = retriesLeft) :
      Ending retriesLeft retries failed
        [attempted invocation failure.answer, ⟨.incrementFailure invocation.name, ()⟩]
        (.error (failure.error e invocation))

/-- What an execution may do: the answers it is given and its outcome. -/
inductive Executed : Trace → Outcome → Prop
  | refused (err : ToolExecutionError) (h : e.precheck invocation = .error err) : Executed [] (.error err)
  | circuitOpen (spec : ToolSpec) (failures : UInt32) (h : e.precheck invocation = .ok spec)
      (hopen : e.Opens failures) :
      Executed [⟨.readFailures invocation.name, failures⟩] (.error (.circuitOpen invocation.name failures))
  | attempted (spec : ToolSpec) (count : UInt32) (failures : List Failure) (tail : Trace) (outcome : Outcome)
      (h : e.precheck invocation = .ok spec) (hclosed : ¬ e.Opens count)
      (hmax : e.config.maxRetries.toNat + 1 < 2 ^ 32) (hle : failures.length ≤ e.config.maxRetries.toNat)
      (hend : Ending e invocation runId spec e.config.maxRetries.toNat 0 failures.length tail outcome) :
      Executed (⟨.readFailures invocation.name, count⟩ ::
        (failures.map (fun failure => attempted invocation failure.answer) ++ tail)) outcome
  /-- The number of attempts has wrapped around to none. -/
  | noAttempt (spec : ToolSpec) (count : UInt32) (h : e.precheck invocation = .ok spec)
      (hclosed : ¬ e.Opens count) (hmax : e.config.maxRetries.toNat + 1 = 2 ^ 32) :
      Executed [⟨.readFailures invocation.name, count⟩]
        (.error (.adapter invocation.name "unreachable execution state"))

/-- The loop makes an attempt, and goes on by what has become of it. -/
theorem attempts_succ (n : Nat) (attempt retries : UInt32) :
    ∃ next, e.attempts invocation runId spec (n + 1) attempt retries =
        .call (.callAdapter invocation.name invocation.input) next ∧
      (∀ failure : Failure, next failure.answer = if attempt < e.config.maxRetries then
        e.attempts invocation runId spec n (attempt + 1) (retries + 1)
        else ToolExecutor.giveUp invocation (failure.error e invocation)) ∧
      ∀ output, next (some (.ok output)) = ToolExecutor.accept invocation runId spec retries output := by
  refine ⟨_, rfl, fun failure => ?_, fun output => rfl⟩
  cases failure <;> rfl

/-- An attempt fails or has an output. -/
theorem answer_cases (answer : Option (Except String (Doc Number))) :
    (∃ failure : Failure, answer = failure.answer) ∨ ∃ output, answer = some (.ok output) := by
  cases answer with
  | none => exact Or.inl ⟨none, rfl⟩
  | some result =>
      cases result with
      | error message => exact Or.inl ⟨some message, rfl⟩
      | ok output => exact Or.inr ⟨output, rfl⟩

variable {e invocation runId spec} {tr : Trace} {outcome : Outcome}

theorem traces_giveUp {err : ToolExecutionError} :
    Proc.Traces (ToolExecutor.giveUp invocation err) tr outcome ↔
      tr = [⟨.incrementFailure invocation.name, ()⟩] ∧ outcome = .error err := by
  show Proc.Traces (.call (.incrementFailure invocation.name) fun _ => .ret (.error err)) tr outcome ↔ _
  rw [Proc.Traces.call_iff]
  constructor
  · rintro ⟨_, rest, rfl, hrest⟩
    obtain ⟨rfl, rfl⟩ := Proc.Traces.ret_iff.1 hrest
    exact ⟨rfl, rfl⟩
  · rintro ⟨rfl, rfl⟩
    exact ⟨(), [], rfl, .ret _⟩

theorem traces_accept {retries : UInt32} {output : Doc Number} :
    Proc.Traces (ToolExecutor.accept invocation runId spec retries output) tr outcome ↔
      (∃ field, missingField spec.outputSchema output = some field ∧ tr = [] ∧
        outcome = .error (.schemaViolation invocation.name .output field)) ∨
      ∃ durationMs, missingField spec.outputSchema output = none ∧
        tr = [⟨.resetFailure invocation.name, ()⟩, ⟨.elapsed, durationMs⟩] ∧
        outcome = .ok ⟨output, ⟨runId, invocation.name, retries, durationMs⟩⟩ := by
  unfold ToolExecutor.accept validateSchema
  cases hmissing : missingField spec.outputSchema output with
  | some field =>
      simp only [Proc.pure_eq, Proc.Traces.ret_iff]
      constructor
      · rintro ⟨rfl, rfl⟩
        exact Or.inl ⟨field, rfl, rfl, rfl⟩
      · rintro (⟨field', hfield, rfl, rfl⟩ | ⟨_, hnone, -⟩)
        · cases hfield
          exact ⟨rfl, rfl⟩
        · cases hnone
  | none =>
      show Proc.Traces (.call (.resetFailure invocation.name) fun _ => .call .elapsed fun durationMs =>
        .ret (.ok ⟨output, ⟨runId, invocation.name, retries, durationMs⟩⟩)) tr outcome ↔ _
      constructor
      · intro h
        obtain ⟨_, rest, rfl, hrest⟩ := Proc.Traces.call_iff.1 h
        obtain ⟨durationMs, rest', rfl, hret⟩ := Proc.Traces.call_iff.1 hrest
        obtain ⟨rfl, rfl⟩ := Proc.Traces.ret_iff.1 hret
        exact Or.inr ⟨durationMs, rfl, rfl, rfl⟩
      · rintro (⟨field', hfield, -⟩ | ⟨durationMs, -, rfl, rfl⟩)
        · cases hfield
        · exact Proc.Traces.call_iff.2 ⟨(), _, rfl, Proc.Traces.call_iff.2 ⟨durationMs, _, rfl, .ret _⟩⟩

/-- One attempt: it has an output, or it fails and is repeated or the last one. -/
theorem traces_attempts_succ {n : Nat} {attempt retries : UInt32} :
    Proc.Traces (e.attempts invocation runId spec (n + 1) attempt retries) tr outcome ↔
      (∃ output rest, tr = attempted invocation (some (.ok output)) :: rest ∧
        Proc.Traces (ToolExecutor.accept invocation runId spec retries output) rest outcome) ∨
      ∃ (failure : Failure) (rest : Trace), tr = attempted invocation failure.answer :: rest ∧
        Proc.Traces (if attempt < e.config.maxRetries then
          e.attempts invocation runId spec n (attempt + 1) (retries + 1)
          else ToolExecutor.giveUp invocation (failure.error e invocation)) rest outcome := by
  obtain ⟨next, heq, hfailed, hok⟩ :=
    attempts_succ e invocation runId spec n attempt retries
  rw [heq, Proc.Traces.call_iff]
  constructor
  · rintro ⟨answer, rest, rfl, hrest⟩
    rcases answer_cases answer with ⟨failure, rfl⟩ | ⟨output, rfl⟩
    · exact Or.inr ⟨failure, rest, rfl, hfailed failure ▸ hrest⟩
    · exact Or.inl ⟨output, rest, rfl, hok output ▸ hrest⟩
  · rintro (⟨output, rest, rfl, hrest⟩ | ⟨failure, rest, rfl, hrest⟩)
    · exact ⟨_, rest, rfl, (hok output).symm ▸ hrest⟩
    · exact ⟨_, rest, rfl, (hfailed failure).symm ▸ hrest⟩

theorem ofNat_add_one (n : Nat) (retries : UInt32) :
    retries + 1 + UInt32.ofNat n = retries + UInt32.ofNat (n + 1) := by
  rw [UInt32.ofNat_add, UInt32.add_assoc, UInt32.add_comm (UInt32.ofNat n)]
  rfl

/-- A failed attempt that is repeated counts as a retry. -/
theorem ending_succ {n failed : Nat} {retries : UInt32} :
    Ending e invocation runId spec (n + 1) retries (failed + 1) tr outcome ↔
      Ending e invocation runId spec n (retries + 1) failed tr outcome := by
  constructor
  · intro h
    cases h with
    | succeeded output durationMs h =>
        rw [← ofNat_add_one]
        exact .succeeded output durationMs h
    | badOutput output field h => exact .badOutput output field h
    | failed failure h => exact .failed failure (Nat.succ.inj h)
  · intro h
    cases h with
    | succeeded output durationMs h =>
        rw [ofNat_add_one]
        exact .succeeded output durationMs h
    | badOutput output field h => exact .badOutput output field h
    | failed failure h => exact .failed failure (congrArg Nat.succ h)

theorem ending_of_accept {n : Nat} {retries : UInt32} {output : Doc Number}
    (h : Proc.Traces (ToolExecutor.accept invocation runId spec retries output) tr outcome) :
    Ending e invocation runId spec n retries 0 (attempted invocation (some (.ok output)) :: tr) outcome := by
  rcases traces_accept.1 h with ⟨field, hfield, rfl, rfl⟩ | ⟨durationMs, hnone, rfl, rfl⟩
  · exact .badOutput output field hfield
  · have hend : Ending e invocation runId spec n retries 0 _
      (.ok ⟨output, ⟨runId, invocation.name, retries + UInt32.ofNat 0, durationMs⟩⟩) :=
      .succeeded output durationMs hnone
    rwa [show retries + UInt32.ofNat 0 = retries from UInt32.add_zero retries] at hend

theorem toNat_add_one {n : Nat} {attempt : UInt32}
    (hleft : attempt.toNat + (n + 1) = e.config.maxRetries.toNat) :
    (attempt + 1).toNat + n = e.config.maxRetries.toNat := by
  have hmax := e.config.maxRetries.toNat_lt
  rw [UInt32.toNat_add, UInt32.toNat_one, Nat.mod_eq_of_lt (by omega)]
  omega

/-- The loop: some attempts fail, and it ends with the one after them. -/
theorem ending_of_traces {n : Nat} {attempt retries : UInt32}
    (hleft : attempt.toNat + n = e.config.maxRetries.toNat)
    (h : Proc.Traces (e.attempts invocation runId spec (n + 1) attempt retries) tr outcome) :
    ∃ (failures : List Failure) (tail : Trace), failures.length ≤ n ∧
      tr = failures.map (fun failure => attempted invocation failure.answer) ++ tail ∧
      Ending e invocation runId spec n retries failures.length tail outcome := by
  -- on the retries that are left
  induction n generalizing attempt retries tr with
  | zero =>
      have hlast : ¬ attempt < e.config.maxRetries := by
        rw [UInt32.lt_iff_toNat_lt]
        omega
      rcases traces_attempts_succ.1 h with ⟨output, rest, rfl, hrest⟩ | ⟨failure, rest, rfl, hrest⟩
      · exact ⟨[], _, Nat.le_refl 0, rfl, ending_of_accept hrest⟩
      · rw [if_neg hlast, traces_giveUp] at hrest
        obtain ⟨rfl, rfl⟩ := hrest
        exact ⟨[], _, Nat.le_refl 0, rfl, .failed failure rfl⟩
  | succ n ih =>
      have hmore : attempt < e.config.maxRetries := by
        rw [UInt32.lt_iff_toNat_lt]
        omega
      rcases traces_attempts_succ.1 h with ⟨output, rest, rfl, hrest⟩ | ⟨failure, rest, rfl, hrest⟩
      · exact ⟨[], _, Nat.zero_le _, rfl, ending_of_accept hrest⟩
      · rw [if_pos hmore] at hrest
        obtain ⟨failures, tail, hle, rfl, hend⟩ := ih (toNat_add_one hleft) hrest
        exact ⟨failure :: failures, tail, Nat.succ_le_succ hle, rfl, ending_succ.2 hend⟩

theorem traces_of_ending {n : Nat} {attempt retries : UInt32}
    (hleft : attempt.toNat + n = e.config.maxRetries.toNat) {failures : List Failure} {tail : Trace}
    (hle : failures.length ≤ n) (hend : Ending e invocation runId spec n retries failures.length tail outcome) :
    Proc.Traces (e.attempts invocation runId spec (n + 1) attempt retries)
      (failures.map (fun failure => attempted invocation failure.answer) ++ tail) outcome := by
  -- On the failures that come first: each of them is an attempt that is repeated.
  induction failures generalizing n attempt retries with
  | nil =>
      refine traces_attempts_succ.2 ?_
      cases hend with
      | succeeded output durationMs h =>
          refine Or.inl ⟨output, _, rfl, traces_accept.2 (Or.inr ⟨durationMs, h, rfl, ?_⟩)⟩
          rw [List.length_nil, show retries + UInt32.ofNat 0 = retries from UInt32.add_zero retries]
      | badOutput output field h =>
          exact Or.inl ⟨output, _, rfl, traces_accept.2 (Or.inl ⟨field, h, rfl, rfl⟩)⟩
      | failed failure h =>
          -- The last attempt: the comparison with the retries stops the loop.
          have hlast : ¬ attempt < e.config.maxRetries := by
            rw [UInt32.lt_iff_toNat_lt]
            rw [List.length_nil] at h
            omega
          refine Or.inr ⟨failure, _, rfl, ?_⟩
          rw [if_neg hlast]
          exact traces_giveUp.2 ⟨rfl, rfl⟩
  | cons failure failures ih =>
      obtain ⟨n, rfl⟩ := Nat.exists_eq_succ_of_ne_zero (Nat.ne_zero_of_lt hle)
      have hmore : attempt < e.config.maxRetries := by
        rw [UInt32.lt_iff_toNat_lt]
        omega
      refine traces_attempts_succ.2 (Or.inr ⟨failure, _, rfl, ?_⟩)
      rw [if_pos hmore]
      exact ih (toNat_add_one hleft) (Nat.le_of_succ_le_succ hle) (ending_succ.1 hend)

theorem toNat_maxAttempts (hfits : e.config.maxRetries.toNat + 1 < 2 ^ 32) :
    (e.config.maxRetries + 1).toNat = e.config.maxRetries.toNat + 1 := by
  rw [UInt32.toNat_add, UInt32.toNat_one, Nat.mod_eq_of_lt hfits]

theorem toNat_maxAttempts_of_wraps (hwraps : e.config.maxRetries.toNat + 1 = 2 ^ 32) :
    (e.config.maxRetries + 1).toNat = 0 := by
  rw [UInt32.toNat_add, UInt32.toNat_one, hwraps, Nat.mod_self]

/-- What an execution does is what `Executed` says, whatever it is answered: it is refused by a check, stopped
by the breaker, or it fails so and so often, never more often than there are retries, and ends with the
attempt after that. -/
theorem traces_execute_iff (e : ToolExecutor) (invocation : ToolInvocation) (runId : Option String) (tr : Trace)
    (outcome : Outcome) :
    Proc.Traces (e.execute invocation runId) tr outcome ↔ Executed e invocation runId tr outcome := by
  unfold ToolExecutor.execute
  cases hprecheck : e.precheck invocation with
  | error err =>
      simp only [Proc.pure_eq, Proc.Traces.ret_iff]
      constructor
      · rintro ⟨rfl, rfl⟩
        exact .refused err hprecheck
      · intro h
        cases h with
        | refused err' h =>
            rw [hprecheck] at h
            cases h
            exact ⟨rfl, rfl⟩
        | circuitOpen spec _ h _ => exact absurd (hprecheck.symm.trans h) (by simp)
        | attempted spec _ _ _ _ h _ _ _ _ => exact absurd (hprecheck.symm.trans h) (by simp)
        | noAttempt spec _ h _ _ => exact absurd (hprecheck.symm.trans h) (by simp)
  | ok spec =>
      have hsame : ∀ {spec'}, e.precheck invocation = .ok spec' → spec' = spec := fun h => by
        rw [hprecheck] at h
        cases h
        rfl
      show Proc.Traces (.call (.readFailures invocation.name) fun count => if e.Opens count then
        .ret (.error (.circuitOpen invocation.name count)) else
        e.attempts invocation runId spec (e.config.maxRetries + 1).toNat 0 0) tr outcome ↔ _
      rw [Proc.Traces.call_iff]
      have hmax := e.config.maxRetries.toNat_lt
      constructor
      · rintro ⟨count, rest, rfl, hrest⟩
        by_cases hopen : e.Opens count
        · rw [if_pos hopen, Proc.Traces.ret_iff] at hrest
          obtain ⟨rfl, rfl⟩ := hrest
          exact .circuitOpen spec count hprecheck hopen
        · rw [if_neg hopen] at hrest
          -- `max_retries + 1` is computed in 32 bits: at the greatest value there is no attempt at all.
          rcases Nat.lt_or_ge (e.config.maxRetries.toNat + 1) (2 ^ 32) with hfits | hwraps
          · rw [toNat_maxAttempts hfits] at hrest
            obtain ⟨failures, tail, hle, rfl, hend⟩ := ending_of_traces (Nat.zero_add _) hrest
            exact .attempted spec count failures tail outcome hprecheck hopen hfits hle hend
          · have hall : e.config.maxRetries.toNat + 1 = 2 ^ 32 := by omega
            rw [toNat_maxAttempts_of_wraps hall] at hrest
            obtain ⟨rfl, rfl⟩ := Proc.Traces.ret_iff.1 hrest
            exact .noAttempt spec count hprecheck hopen hall
      · intro h
        cases h with
        | refused err h => exact absurd (hprecheck.symm.trans h) (by simp)
        | circuitOpen spec' count h hopen =>
            refine ⟨count, [], rfl, ?_⟩
            rw [if_pos hopen]
            exact .ret _
        | attempted spec' count failures tail _ h hclosed hfits hle hend =>
            obtain rfl := hsame h
            refine ⟨count, _, rfl, ?_⟩
            rw [if_neg hclosed, toNat_maxAttempts hfits]
            exact traces_of_ending (Nat.zero_add _) hle hend
        | noAttempt spec' count h hclosed hwraps =>
            refine ⟨count, [], rfl, ?_⟩
            rw [if_neg hclosed, toNat_maxAttempts_of_wraps hwraps]
            exact .ret _

end Execution

/-! ## Executions that share the counts -/

/-- What the world shows at one moment: the adapter's answer, and the clock. -/
structure Moment where
  answer : Option (Except String (Doc Number))
  elapsedMs : Nat

structure ExecutorState where
  failureCounts : Map String UInt32
  /-- The accesses so far; the code does not keep them. -/
  history : List Access

namespace ExecutorState

def new : ExecutorState :=
  ⟨∅, []⟩

def failureCount (s : ExecutorState) (toolName : String) : UInt32 :=
  (s.failureCounts toolName).getD 0

/-- What an access does to the counts. -/
def apply (s : ExecutorState) : Access → Map String UInt32
  | .incrementFailure toolName => s.failureCounts.insert toolName (s.failureCount toolName + 1)
  | .resetFailure toolName => s.failureCounts.insert toolName 0
  | _ => s.failureCounts

def answer (world : Nat → Moment) (s : ExecutorState) : (op : Access) → op.Ans
  | .readFailures toolName => s.failureCount toolName
  | .callAdapter _ _ => (world s.history.length).answer
  | .incrementFailure _ => ()
  | .resetFailure _ => ()
  | .elapsed => (world s.history.length).elapsedMs

/-- How often the tool has been called. -/
def callsOf (s : ExecutorState) (toolName : String) : Nat :=
  s.history.countP (Access.calls toolName)

end ExecutorState

/-- One access; the world may answer differently each time. -/
def exec (world : Nat → Moment) (op : Access) (s : ExecutorState) : op.Ans × ExecutorState :=
  (s.answer world op, ⟨s.apply op, s.history ++ [op]⟩)

abbrev Running (ι : Type) : Type :=
  Interleaving.Config Access Access.Ans Outcome ExecutorState ι

section Shared

variable {e : ToolExecutor} {world : Nat → Moment} {toolName : String} {s s' : ExecutorState}

/-- Accesses that leave the counts of a tool alone and do not call it. -/
def Avoids (toolName : String) : Access → Prop
  | .callAdapter name _ => name ≠ toolName
  | .incrementFailure name => name ≠ toolName
  | .resetFailure name => name ≠ toolName
  | _ => True

/-- Where the breaker of a tool is open it stays so, and the tool is not called. -/
def StaysOpen (e : ToolExecutor) (toolName : String) (s s' : ExecutorState) : Prop :=
  e.Opens (s.failureCount toolName) →
    s'.failureCount toolName = s.failureCount toolName ∧ s'.callsOf toolName = s.callsOf toolName

theorem StaysOpen.refl (s : ExecutorState) : StaysOpen e toolName s s :=
  fun _ => ⟨rfl, rfl⟩

theorem StaysOpen.trans {s₁ s₂ s₃ : ExecutorState} (h : StaysOpen e toolName s₁ s₂)
    (h' : StaysOpen e toolName s₂ s₃) : StaysOpen e toolName s₁ s₃ := by
  intro hopen
  obtain ⟨hcount, hcalls⟩ := h hopen
  obtain ⟨hcount', hcalls'⟩ := h' (hcount ▸ hopen)
  exact ⟨hcount'.trans hcount, hcalls'.trans hcalls⟩

/-- How often a failure of the tool has been counted. -/
def ExecutorState.raised (s : ExecutorState) (toolName : String) : Nat :=
  s.history.countP (Access.raises toolName)

/-- The execution has failed for the tool: its last attempt timed out or was answered with a message. -/
def FailedFor (toolName : String) : Outcome → Prop
  | .error (.timeout name _) => name = toolName
  | .error (.adapter name _) => name = toolName
  | _ => False

instance (toolName : String) : DecidablePred (FailedFor toolName)
  | .ok _ => inferInstanceAs (Decidable False)
  | .error (.timeout name _) => inferInstanceAs (Decidable (name = toolName))
  | .error (.adapter name _) => inferInstanceAs (Decidable (name = toolName))
  | .error (.unknownTool _) => inferInstanceAs (Decidable False)
  | .error (.duplicateTool _) => inferInstanceAs (Decidable False)
  | .error (.policyDenied _ _) => inferInstanceAs (Decidable False)
  | .error (.approvalRequired _ _) => inferInstanceAs (Decidable False)
  | .error (.schemaViolation _ _ _) => inferInstanceAs (Decidable False)
  | .error (.circuitOpen _ _) => inferInstanceAs (Decidable False)

/-- An execution that counts a failure of the tool ends with that, and has failed for it. -/
abbrev Reports (toolName : String) (p : Program Outcome) : Prop :=
  p.EndsOn (fun op _ => op.raises toolName = true) (FailedFor toolName)

theorem reports_giveUp (e : ToolExecutor) (invocation : ToolInvocation) (failure : Failure) :
    Reports toolName (ToolExecutor.giveUp invocation (failure.error e invocation)) := by
  refine fun _ => ⟨fun hraises => ?_, trivial⟩
  have hname : invocation.name = toolName := of_decide_eq_true hraises
  cases failure with
  | none => exact hname
  | some message => exact hname

theorem reports_accept (invocation : ToolInvocation) (runId : Option String) (spec : ToolSpec)
    (retries : UInt32) (output : Doc Number) :
    Reports toolName (ToolExecutor.accept invocation runId spec retries output) := by
  refine Proc.Calls.endsOn (fun _ _ hnot => hnot) (Q := fun op => ¬ op.raises toolName = true) ?_
  unfold ToolExecutor.accept
  split
  · trivial
  · exact ⟨Bool.false_ne_true, fun _ => ⟨Bool.false_ne_true, fun _ => trivial⟩⟩

theorem reports_attempts (e : ToolExecutor) (invocation : ToolInvocation) (runId : Option String)
    (spec : ToolSpec) (n : Nat) (attempt retries : UInt32) :
    Reports toolName (e.attempts invocation runId spec n attempt retries) := by
  induction n generalizing attempt retries with
  | zero => trivial
  | succ n ih =>
      obtain ⟨next, heq, hfailed, hok⟩ := attempts_succ e invocation runId spec n attempt retries
      rw [heq]
      refine fun answer => ⟨fun hraises => absurd hraises Bool.false_ne_true, ?_⟩
      rcases answer_cases answer with ⟨failure, rfl⟩ | ⟨output, rfl⟩
      · rw [hfailed]
        split
        · exact ih _ _
        · exact reports_giveUp e invocation failure
      · rw [hok]
        exact reports_accept invocation runId spec retries output

theorem reports_execute (e : ToolExecutor) (invocation : ToolInvocation) (runId : Option String) :
    Reports toolName (e.execute invocation runId) := by
  unfold ToolExecutor.execute
  cases e.precheck invocation with
  | error err => trivial
  | ok spec =>
      refine fun count => ⟨fun hraises => absurd hraises Bool.false_ne_true, ?_⟩
      show Reports toolName (if e.Opens count then .ret (.error (.circuitOpen invocation.name count)) else
        e.attempts invocation runId spec (e.config.maxRetries + 1).toNat 0 0)
      split
      · trivial
      · exact reports_attempts e invocation runId spec _ 0 0

theorem raised_exec (op : Access) (s : ExecutorState) (toolName : String) :
    (exec world op s).2.raised toolName = s.raised toolName + if op.raises toolName then 1 else 0 := by
  show (s.history ++ [op]).countP _ = s.history.countP _ + _
  rw [List.countP_append, List.countP_singleton]

/-- No count is above the failures that were counted. -/
def Raised (s : ExecutorState) : Prop :=
  ∀ toolName, (s.failureCount toolName).toNat ≤ s.raised toolName

theorem raised_new : Raised .new :=
  fun _ => Nat.le_refl 0

theorem failureCount_insert (s : ExecutorState) (name toolName : String) (count : UInt32) :
    ((s.failureCounts.insert name count) toolName).getD 0 =
      if toolName = name then count else s.failureCount toolName := by
  split
  · next heq =>
      subst heq
      rw [Map.insert_self]
      rfl
  · next hne =>
      rw [Map.insert_of_ne _ _ hne]
      rfl

theorem raised_preserved (op : Access) (h : Raised s) : Raised (exec world op s).2 := by
  intro toolName
  rw [raised_exec]
  cases op with
  | readFailures name => exact h toolName
  | callAdapter name input => exact h toolName
  | elapsed => exact h toolName
  | resetFailure name =>
      show (((s.failureCounts.insert name 0) toolName).getD 0).toNat ≤ s.raised toolName + 0
      rw [failureCount_insert]
      split
      · exact Nat.zero_le _
      · exact h toolName
  | incrementFailure name =>
      show (((s.failureCounts.insert name (s.failureCount name + 1)) toolName).getD 0).toNat ≤
        s.raised toolName + if decide (name = toolName) = true then 1 else 0
      rw [failureCount_insert]
      split
      · next heq =>
          subst heq
          rw [if_pos (decide_eq_true rfl)]
          -- a count that wraps around is lower
          calc (s.failureCount toolName + 1).toNat
              = ((s.failureCount toolName).toNat + 1) % 2 ^ 32 := UInt32.toNat_add _ _
            _ ≤ (s.failureCount toolName).toNat + 1 := Nat.mod_le _ _
            _ ≤ s.raised toolName + 1 := Nat.add_le_add_right (h toolName) 1
      · exact Nat.le_add_right_of_le (h toolName)

/-- How the accesses change the state. -/
structure Grows (s s' : ExecutorState) : Prop where
  raised : Raised s → Raised s'
  history : ∀ toolName, s.raised toolName ≤ s'.raised toolName

theorem Grows.refl (s : ExecutorState) : Grows s s :=
  ⟨id, fun _ => Nat.le_refl _⟩

theorem Grows.trans {s₁ s₂ s₃ : ExecutorState} (h : Grows s₁ s₂) (h' : Grows s₂ s₃) : Grows s₁ s₃ :=
  ⟨h'.raised ∘ h.raised, fun toolName => (h.history toolName).trans (h'.history toolName)⟩

theorem grows_exec (op : Access) (s : ExecutorState) : Grows s (exec world op s).2 := by
  refine ⟨raised_preserved op, fun toolName => ?_⟩
  rw [raised_exec]
  exact Nat.le_add_right _ _

/-- What stops an execution has been counted. -/
def Accounted (e : ToolExecutor) (outcome : Outcome) (s : ExecutorState) : Prop :=
  ∀ name failures, outcome = .error (.circuitOpen name failures) →
    e.Opens failures ∧ failures.toNat ≤ s.raised name

theorem accounted_error {err : ToolExecutionError} (h : ∀ name failures, err ≠ .circuitOpen name failures) :
    Accounted e (.error err) s := by
  intro name failures heq
  exact absurd (Except.error.inj heq) (h name failures)

theorem accounted_failure (invocation : ToolInvocation) (failure : Failure) :
    Accounted e (.error (failure.error e invocation)) s := by
  cases failure with
  | none => exact accounted_error fun _ _ => ToolExecutionError.noConfusion
  | some message => exact accounted_error fun _ _ => ToolExecutionError.noConfusion

/-- `Wp` for executions that share the counts. -/
abbrev Counts (world : Nat → Moment) (e : ToolExecutor) (p : Program Outcome) (s : ExecutorState) : Prop :=
  p.Wp (exec world) (fun _ _ => True) Grows (Accounted e) s

theorem counts_accept (invocation : ToolInvocation) (runId : Option String) (spec : ToolSpec)
    (retries : UInt32) (output : Doc Number) (s : ExecutorState) :
    Counts world e (ToolExecutor.accept invocation runId spec retries output) s := by
  unfold ToolExecutor.accept validateSchema
  cases missingField spec.outputSchema output with
  | some field => exact accounted_error fun _ _ => ToolExecutionError.noConfusion
  | none =>
      refine fun _ => ⟨grows_exec _ s, fun s₁ _ => fun _ => ⟨grows_exec _ s₁, fun s₂ _ => ?_⟩⟩
      intro name failures heq
      cases heq

theorem counts_attempts (invocation : ToolInvocation) (runId : Option String) (spec : ToolSpec) (n : Nat)
    (attempt retries : UInt32) (s : ExecutorState) :
    Counts world e (e.attempts invocation runId spec n attempt retries) s := by
  induction n generalizing attempt retries s with
  | zero => exact accounted_error fun _ _ => ToolExecutionError.noConfusion
  | succ n ih =>
      obtain ⟨next, heq, hfailed, hok⟩ := attempts_succ e invocation runId spec n attempt retries
      rw [heq]
      refine fun _ => ⟨grows_exec _ s, fun s' _ => ?_⟩
      rcases answer_cases (exec world (.callAdapter invocation.name invocation.input) s).1 with
        ⟨failure, hanswer⟩ | ⟨output, hanswer⟩
      · rw [hanswer, hfailed]
        split
        · exact ih _ _ s'
        · exact fun _ => ⟨grows_exec _ s', fun s'' _ => accounted_failure invocation failure⟩
      · rw [hanswer, hok]
        exact counts_accept invocation runId spec retries output s'

theorem precheck_ne_circuitOpen {invocation : ToolInvocation} (name : String) (failures : UInt32) :
    e.precheck invocation ≠ .error (.circuitOpen name failures) := by
  unfold ToolExecutor.precheck validateSchema
  split
  · simp
  · split
    · simp
    · simp
    · split <;> simp [Except.map]

theorem counts_execute (hs : Raised s) (invocation : ToolInvocation) (runId : Option String) :
    Counts world e (e.execute invocation runId) s := by
  unfold ToolExecutor.execute
  cases hprecheck : e.precheck invocation with
  | error err =>
      refine accounted_error fun name failures heq => ?_
      exact precheck_ne_circuitOpen name failures (heq ▸ hprecheck)
  | ok spec =>
      refine fun _ => ⟨grows_exec _ s, fun s' hs' => ?_⟩
      show Counts world e (if e.Opens (s.failureCount invocation.name) then
        .ret (.error (.circuitOpen invocation.name (s.failureCount invocation.name)))
        else e.attempts invocation runId spec (e.config.maxRetries + 1).toNat 0 0) s'
      split
      · next hopen =>
          intro name failures heq
          cases heq
          refine ⟨hopen, (hs _).trans ?_⟩
          exact ((grows_exec (.readFailures invocation.name) s).history _).trans (hs'.history _)
      · exact counts_attempts invocation runId spec _ 0 0 s'

/-- The breaker stops no execution too early: of any number of executions that take turns on a new executor,
if one is stopped, at least as many have failed for its tool as the count it was shown, and that is no lower
than the threshold. -/
theorem stopped_of_failed {ι : Type} [Fintype ι] [DecidableEq ι] (e : ToolExecutor) (world : Nat → Moment)
    (invocation : ι → ToolInvocation) (runId : ι → Option String) {c : Running ι}
    (h : Interleaving.Steps (exec world) (fun _ _ => True)
      ⟨.new, fun i => e.execute (invocation i) (runId i)⟩ c)
    {i : ι} {toolName : String} {failures : UInt32}
    (hret : c.procs i = .ret (.error (.circuitOpen toolName failures))) :
    e.Opens failures ∧ failures.toNat ≤ (c.ended (FailedFor toolName)).card := by
  have hwp : Interleaving.AllWp (exec world) (fun _ _ => True) Grows (fun _ => Accounted e)
      ⟨.new, fun i => e.execute (invocation i) (runId i)⟩ :=
    fun j s' hs' => counts_execute (hs'.raised raised_new) (invocation j) (runId j)
  obtain ⟨hopens, hcounted⟩ :=
    (h.wp_preserved Grows.refl Grows.trans hwp).2.post_of_ret Grows.refl hret toolName failures rfl
  have htally : Interleaving.Tallied (fun op _ => op.raises toolName = true) (FailedFor toolName)
      (ExecutorState.raised · toolName) c := by
    refine h.tallied (fun op s hnot => ?_) (fun op s => ?_) ⟨fun j => reports_execute e _ _, Nat.zero_le _⟩
    · show (exec world op s).2.raised toolName ≤ s.raised toolName
      rw [raised_exec, if_neg hnot]
      exact Nat.le_refl _
    · show (exec world op s).2.raised toolName ≤ s.raised toolName + 1
      rw [raised_exec]
      split
      · exact Nat.le_refl _
      · exact Nat.le_succ _
  exact ⟨hopens, hcounted.trans htally.count_le⟩

end Shared

/-! ### A run -/

def demoSpec : ToolSpec :=
  ⟨"fetch", .fileRead, ⟨[]⟩, ⟨[]⟩⟩

/-- The breaker opens at the first failure. -/
def demoExecutor : ToolExecutor :=
  ⟨⟨(∅ : Map String ToolSpec).insert "fetch" demoSpec, ToolRegistry.empty.named_insert demoSpec⟩,
    .default, ⟨5000, 0, 1⟩⟩

/-- An adapter that never answers in time. -/
def demoWorld (_ : Nat) : Moment :=
  ⟨none, 5000⟩

def demoStart : Running Bool :=
  ⟨.new, fun _ => demoExecutor.execute ⟨"fetch", .null⟩ none⟩

/-- The first execution has failed before the second one begins. -/
def demoFailed : Running Bool :=
  demoStart.fireAll (exec demoWorld) [false, false, false]

def demoStopped : Running Bool :=
  demoFailed.fireAll (exec demoWorld) [true]

theorem demo_steps (c : Running Bool) (schedule : List Bool) :
    Interleaving.Steps (exec demoWorld) (fun _ _ => True) c (c.fireAll (exec demoWorld) schedule) :=
  Interleaving.Steps.of_okAlong (Interleaving.Config.okAlong_of_forall (fun _ _ => trivial) schedule c)

theorem stopped_of_failed_demo : 1 ≤ (demoStopped.ended (FailedFor "fetch")).card :=
  (stopped_of_failed demoExecutor demoWorld (fun _ => ⟨"fetch", .null⟩) (fun _ => none)
    ((demo_steps demoStart [false, false, false]).trans (demo_steps demoFailed [true]))
    (show demoStopped.procs true = .ret (.error (.circuitOpen "fetch" 1)) from rfl)).2

end Tooling
end Sandbox
end Aivcs
