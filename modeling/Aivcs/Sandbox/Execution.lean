import Aivcs.Lib.Checked

/-!
# Sandbox.Execution — a tool called with retries behind a circuit breaker

`sandbox::execution`: a tool is called until it succeeds, at most once more than there are retries and only
while the breaker is closed, and between two calls there is a delay that doubles.  The number of attempts
and the delay are machine words; an operation that overflows is `none`.

A run keeps the breaker's count at each call and the delays.  `execute_iff` is the exact condition under
which a run completes, and what it has done then (`Controlled`).
-/

namespace Aivcs
namespace Sandbox

open Aivcs.Lib

structure SandboxConfig where
  timeoutMs : UInt64
  maxRetries : UInt32
  backoffBaseMs : UInt64
  deriving DecidableEq

structure CircuitBreaker where
  consecutiveFailures : UInt32
  threshold : UInt32
  deriving DecidableEq

namespace CircuitBreaker

def isOpen (breaker : CircuitBreaker) : Bool :=
  decide (breaker.threshold ≤ breaker.consecutiveFailures)

/-- The count is put up by one, and the sum is what the caller gets. -/
def recordFailure (breaker : CircuitBreaker) : Option CircuitBreaker :=
  (checked32 (breaker.consecutiveFailures.toNat + 1)).map fun count =>
    { breaker with consecutiveFailures := count }

def recordSuccess (breaker : CircuitBreaker) : CircuitBreaker :=
  { breaker with consecutiveFailures := 0 }

end CircuitBreaker

/-- What a call comes to: the tool's own answer, or no answer in time. -/
inductive ToolOutcome (Value : Type) where
  | ok (value : Value)
  | err (message : String)
  | elapsed
  deriving DecidableEq

def ToolOutcome.succeeded {Value : Type} : ToolOutcome Value → Bool
  | .ok _ => true
  | _ => false

structure ToolExecutionResult (Value : Type) where
  success : Bool
  attempts : Nat
  output : Option Value
  error : Option String
  deriving DecidableEq

inductive SandboxError where
  | timeout (elapsedMs limitMs : UInt64)
  | executionFailed (attempts : UInt32) (reason : String)
  | circuitBreakerOpen (consecutiveFailures threshold : UInt32)
  deriving DecidableEq

section Execute

variable {Value : Type} (config : SandboxConfig) (maxAttempts : UInt32)

/-- The delay after an attempt, `backoff_base_ms * 2u64.pow(attempt - 1)`. -/
def backoff (attempt : Nat) : Option UInt64 :=
  match checked64 (2 ^ (attempt - 1)) with
  | none => none
  | some power => checked64 (config.backoffBaseMs.toNat * power.toNat)

/-- How an attempt goes on after its call. -/
inductive Next (Value : Type) where
  | stop (result : Except SandboxError (ToolExecutionResult Value)) (breaker : CircuitBreaker)
  | retry (breaker : CircuitBreaker) (delay : UInt64)

/-- The failure is recorded; the last attempt gives up, the others wait. -/
def afterFailure (attempt : Nat) (breaker : CircuitBreaker)
    (last : Except SandboxError (ToolExecutionResult Value)) : Option (Next Value) :=
  match breaker.recordFailure with
  | none => none
  | some breaker =>
      if attempt = maxAttempts.toNat then
        some (.stop last breaker)
      else
        (backoff config attempt).map fun delay => .retry breaker delay

def afterCall (attempt : Nat) (breaker : CircuitBreaker) : ToolOutcome Value → Option (Next Value)
  | .ok value =>
      some (.stop
        (.ok { success := true, attempts := attempt, output := some value, error := none })
        breaker.recordSuccess)
  | .err message =>
      afterFailure config maxAttempts attempt breaker
        (.ok { success := false, attempts := attempt, output := none, error := some message })
  | .elapsed =>
      afterFailure config maxAttempts attempt breaker
        (.error (.timeout config.timeoutMs config.timeoutMs))

/-- What a run returns and leaves behind, with the breaker's count at each call and the delays. -/
structure Execution (Value : Type) where
  result : Except SandboxError (ToolExecutionResult Value)
  breaker : CircuitBreaker
  calls : List UInt32
  delays : List UInt64

/-- The attempts that remain, from the number `attempt` on. -/
def attemptsFrom (outcomes : Nat → ToolOutcome Value) :
    Nat → Nat → CircuitBreaker → Option (Execution Value)
  | 0, _, breaker =>
      some {
        result := .error (.executionFailed maxAttempts "exhausted all attempts")
        breaker := breaker
        calls := []
        delays := [] }
  | remaining + 1, attempt, breaker =>
      if breaker.isOpen then
        some {
          result := .error (.circuitBreakerOpen breaker.consecutiveFailures breaker.threshold)
          breaker := breaker
          calls := []
          delays := [] }
      else
        match afterCall config maxAttempts attempt breaker (outcomes attempt) with
        | none => none
        | some (.stop result next) =>
            some {
              result := result
              breaker := next
              calls := [breaker.consecutiveFailures]
              delays := [] }
        | some (.retry next delay) =>
            (attemptsFrom outcomes remaining (attempt + 1) next).map fun rest =>
              { rest with
                calls := breaker.consecutiveFailures :: rest.calls
                delays := delay :: rest.delays }

/-- `execute_with_controls`, where the call of attempt `n` comes to `outcomes n`. -/
def executeWithControls (breaker : CircuitBreaker) (outcomes : Nat → ToolOutcome Value) :
    Option (Execution Value) :=
  match checked32 (config.maxRetries.toNat + 1) with
  | none => none
  | some maxAttempts => attemptsFrom config maxAttempts outcomes maxAttempts.toNat 1 breaker

end Execute

/-! ## One attempt -/

section Attempt

variable {Value : Type} {config : SandboxConfig} {maxAttempts : UInt32} {attempt : Nat}
  {breaker : CircuitBreaker} {outcome : ToolOutcome Value}

/-- The delay after an attempt can be computed. -/
def BackoffFits (config : SandboxConfig) (attempt : Nat) : Prop :=
  2 ^ (attempt - 1) < 2 ^ 64 ∧ config.backoffBaseMs.toNat * 2 ^ (attempt - 1) < 2 ^ 64

theorem backoff_cases (config : SandboxConfig) (attempt : Nat) :
    (backoff config attempt = none ∧ ¬ BackoffFits config attempt) ∨
      ∃ delay, backoff config attempt = some delay ∧ BackoffFits config attempt := by
  rw [backoff]
  cases hpower : checked64 (2 ^ (attempt - 1)) with
  | none =>
      exact Or.inl ⟨rfl, fun h => absurd h.1 (Nat.not_lt.2 (checked64_eq_none.1 hpower))⟩
  | some power =>
      have hvalue : power.toNat = 2 ^ (attempt - 1) := checked64_eq_some.1 hpower
      simp only [hvalue]
      cases hdelay : checked64 (config.backoffBaseMs.toNat * 2 ^ (attempt - 1)) with
      | none =>
          exact Or.inl ⟨rfl, fun h => absurd h.2 (Nat.not_lt.2 (checked64_eq_none.1 hdelay))⟩
      | some delay =>
          refine Or.inr ⟨delay, rfl, ?_, ?_⟩
          · exact hvalue ▸ power.toNat_lt
          · exact checked64_eq_some.1 hdelay ▸ delay.toNat_lt

/-- Below its threshold the count can be put up. -/
theorem recordFailure_of_closed (h : breaker.isOpen = false) :
    ∃ count : UInt32, breaker.recordFailure = some { breaker with consecutiveFailures := count } ∧
      count.toNat = breaker.consecutiveFailures.toNat + 1 := by
  have hlt : breaker.consecutiveFailures.toNat < breaker.threshold.toNat := by
    simpa [CircuitBreaker.isOpen, UInt32.lt_iff_toNat_lt] using h
  have hbound : breaker.consecutiveFailures.toNat + 1 < 2 ^ 32 :=
    Nat.lt_of_le_of_lt hlt breaker.threshold.toNat_lt
  refine ⟨_, ?_, checked32_eq_some.1 (checked32_of_lt hbound)⟩
  rw [CircuitBreaker.recordFailure, checked32_of_lt hbound]
  rfl

/-- A failure while the breaker is closed: it is counted, and the last attempt gives up where the others
wait, if their delay can be computed. -/
theorem afterFailure_cases (config : SandboxConfig) (maxAttempts : UInt32) (attempt : Nat)
    (hclosed : breaker.isOpen = false)
    (last : Except SandboxError (ToolExecutionResult Value)) :
    ∃ next : CircuitBreaker, next.threshold = breaker.threshold ∧
      next.consecutiveFailures.toNat = breaker.consecutiveFailures.toNat + 1 ∧
      ((attempt = maxAttempts.toNat ∧
          afterFailure config maxAttempts attempt breaker last = some (.stop last next)) ∨
        (attempt ≠ maxAttempts.toNat ∧
          ((afterFailure config maxAttempts attempt breaker last = none ∧ ¬ BackoffFits config attempt) ∨
            ∃ delay, afterFailure config maxAttempts attempt breaker last = some (.retry next delay) ∧
              BackoffFits config attempt))) := by
  obtain ⟨count, hrecord, hcount⟩ := recordFailure_of_closed hclosed
  refine ⟨{ breaker with consecutiveFailures := count }, rfl, hcount, ?_⟩
  rw [afterFailure, hrecord]
  by_cases hlast : attempt = maxAttempts.toNat
  · exact Or.inl ⟨hlast, if_pos hlast⟩
  · refine Or.inr ⟨hlast, ?_⟩
    simp only [if_neg hlast]
    rcases backoff_cases config attempt with ⟨hnone, hnot⟩ | ⟨delay, hsome, hfits⟩
    · exact Or.inl ⟨by rw [hnone]; rfl, hnot⟩
    · exact Or.inr ⟨delay, by rw [hsome]; rfl, hfits⟩

/-- A call that fails is a failure, whichever way; where it is the last, it reports its attempt. -/
theorem afterCall_of_failed (config : SandboxConfig) (maxAttempts : UInt32) (attempt : Nat)
    (breaker : CircuitBreaker) (h : outcome.succeeded = false) :
    ∃ last : Except SandboxError (ToolExecutionResult Value),
      afterCall config maxAttempts attempt breaker outcome =
        afterFailure config maxAttempts attempt breaker last ∧
      (∀ r, last = .ok r → r.attempts = attempt) ∧
      ∀ n reason, last ≠ .error (.executionFailed n reason) := by
  cases outcome with
  | ok value =>
      cases h
  | err message =>
      refine ⟨_, rfl, ?_, ?_⟩
      · rintro r hr
        cases hr
        rfl
      · rintro n reason herr
        cases herr
  | elapsed =>
      refine ⟨_, rfl, ?_, ?_⟩
      · rintro r hr
        cases hr
      · rintro n reason herr
        cases herr

end Attempt

/-! ## A run -/

section Run

variable {Value : Type} {config : SandboxConfig} {maxAttempts : UInt32}
  {outcomes : Nat → ToolOutcome Value}

/-- What holds of a run that starts with the attempt `first` and may make `bound` calls. -/
structure Controlled (outcomes : Nat → ToolOutcome Value) (first bound : Nat) (breaker : CircuitBreaker)
    (run : Execution Value) : Prop where
  calls_le : run.calls.length ≤ bound
  closed : ∀ count ∈ run.calls, count < breaker.threshold
  reported : ∀ r, run.result = .ok r → r.attempts + 1 = first + run.calls.length
  exhausted : ∀ n reason, run.result ≠ .error (.executionFailed n reason)
  count : ((∃ k < run.calls.length, (outcomes (first + k)).succeeded = true) ∧
      run.breaker.consecutiveFailures = 0) ∨
    ((∀ k < run.calls.length, (outcomes (first + k)).succeeded = false) ∧
      run.breaker.consecutiveFailures.toNat =
        breaker.consecutiveFailures.toNat + run.calls.length)

/-- Every delay that is reached can be computed: `k` calls from the attempt `first` on have failed, the
breaker was closed for each of them, and another attempt is left. -/
def BackoffsFit (config : SandboxConfig) (outcomes : Nat → ToolOutcome Value) (first : Nat)
    (breaker : CircuitBreaker) : Prop :=
  ∀ k, first + k ≤ config.maxRetries.toNat →
    breaker.consecutiveFailures.toNat + k < breaker.threshold.toNat →
    (∀ i ≤ k, (outcomes (first + i)).succeeded = false) → BackoffFits config (first + k)

/-- The delays from the next attempt on. -/
theorem backoffsFit_succ {first : Nat} {breaker next : CircuitBreaker}
    (hthreshold : next.threshold = breaker.threshold)
    (hcount : next.consecutiveFailures.toNat = breaker.consecutiveFailures.toNat + 1)
    (hfailed : (outcomes first).succeeded = false) (hfits : BackoffFits config first) :
    BackoffsFit config outcomes first breaker ↔ BackoffsFit config outcomes (first + 1) next := by
  have hshift (k : Nat) : first + 1 + k = first + (k + 1) := by omega
  constructor
  · intro h k hk hbelow hall
    rw [hshift] at hk ⊢
    refine h (k + 1) hk ?_ ?_
    · rw [hthreshold] at hbelow
      omega
    · intro i hi
      cases i with
      | zero =>
          exact hfailed
      | succ i =>
          exact hshift i ▸ hall i (by omega)
  · intro h k hk hbelow hall
    cases k with
    | zero =>
        exact hfits
    | succ k =>
        rw [← hshift] at hk ⊢
        refine h k hk ?_ ?_
        · rw [hthreshold]
          omega
        · intro i hi
          exact (hshift i).symm ▸ hall (i + 1) (by omega)

/-- An open breaker reaches no delay. -/
theorem backoffsFit_of_open {first : Nat} {breaker : CircuitBreaker} (h : breaker.isOpen = true) :
    BackoffsFit config outcomes first breaker := by
  have hreached : breaker.threshold ≤ breaker.consecutiveFailures := of_decide_eq_true h
  intro k _ hbelow _
  have hle := UInt32.le_iff_toNat_le.1 hreached
  omega

/-- A call that succeeds reaches no delay. -/
theorem backoffsFit_of_succeeded {first : Nat} {breaker : CircuitBreaker}
    (h : (outcomes first).succeeded = true) : BackoffsFit config outcomes first breaker := by
  intro k _ _ hall
  have hfailed := hall 0 (Nat.zero_le k)
  rw [Nat.add_zero, h] at hfailed
  cases hfailed

theorem count_lt_of_closed {breaker : CircuitBreaker} (h : breaker.isOpen = false) :
    breaker.consecutiveFailures < breaker.threshold := by
  simpa [CircuitBreaker.isOpen] using h

/-- An open breaker ends the run without a call. -/
theorem controlled_of_open {first bound : Nat} {breaker : CircuitBreaker} :
    Controlled outcomes first bound breaker {
      result := .error (.circuitBreakerOpen breaker.consecutiveFailures breaker.threshold)
      breaker := breaker
      calls := []
      delays := [] } where
  calls_le := Nat.zero_le _
  closed _ h := absurd h List.not_mem_nil
  reported r h := by cases h
  exhausted n reason h := by cases h
  count := Or.inr ⟨fun k hk => absurd hk (Nat.not_lt_zero k), rfl⟩

/-- One call ends the run. -/
theorem controlled_of_stop {first bound : Nat} {breaker next : CircuitBreaker}
    {result : Except SandboxError (ToolExecutionResult Value)} (hclosed : breaker.isOpen = false)
    (hreported : ∀ r, result = .ok r → r.attempts = first)
    (hexhausted : ∀ n reason, result ≠ .error (.executionFailed n reason))
    (hcount : ((outcomes first).succeeded = true ∧ next.consecutiveFailures = 0) ∨
      ((outcomes first).succeeded = false ∧
        next.consecutiveFailures.toNat = breaker.consecutiveFailures.toNat + 1)) :
    Controlled outcomes first (bound + 1) breaker {
      result := result
      breaker := next
      calls := [breaker.consecutiveFailures]
      delays := [] } where
  calls_le := Nat.succ_le_succ (Nat.zero_le bound)
  closed count h := List.mem_singleton.1 h ▸ count_lt_of_closed hclosed
  reported r h := congrArg (· + 1) (hreported r h)
  exhausted := hexhausted
  count := by
    refine hcount.imp ?_ ?_
    · rintro ⟨hsuccess, hzero⟩
      exact ⟨⟨0, Nat.one_pos, hsuccess⟩, hzero⟩
    · rintro ⟨hfailed, hnext⟩
      refine ⟨?_, hnext⟩
      intro k hk
      obtain rfl : k = 0 := Nat.lt_one_iff.1 hk
      exact hfailed

/-- A call that fails, and the run that follows. -/
theorem Controlled.cons {first bound : Nat} {breaker next : CircuitBreaker} {rest : Execution Value}
    {delay : UInt64} (h : Controlled outcomes (first + 1) bound next rest)
    (hclosed : breaker.isOpen = false) (hfailed : (outcomes first).succeeded = false)
    (hthreshold : next.threshold = breaker.threshold)
    (hcount : next.consecutiveFailures.toNat = breaker.consecutiveFailures.toNat + 1) :
    Controlled outcomes first (bound + 1) breaker { rest with
      calls := breaker.consecutiveFailures :: rest.calls
      delays := delay :: rest.delays } where
  calls_le := Nat.succ_le_succ h.calls_le
  closed := by
    rw [List.forall_mem_cons]
    exact ⟨count_lt_of_closed hclosed, hthreshold ▸ h.closed⟩
  reported r hr := by
    have hrest := h.reported r hr
    simp only [List.length_cons]
    omega
  exhausted := h.exhausted
  count := by
    have hshift (k : Nat) : first + 1 + k = first + (k + 1) := by omega
    rcases h.count with ⟨⟨k, hk, hsuccess⟩, hzero⟩ | ⟨hall, hgrown⟩
    · exact Or.inl ⟨⟨k + 1, Nat.succ_lt_succ hk, hshift k ▸ hsuccess⟩, hzero⟩
    · refine Or.inr ⟨?_, ?_⟩
      · intro k hk
        cases k with
        | zero =>
            exact hfailed
        | succ k =>
            exact hshift k ▸ hall k (Nat.lt_of_succ_lt_succ hk)
      · simp only [List.length_cons]
        omega

/-- An attempt ends the run, or its call fails and the next attempt follows its delay. -/
theorem attemptsFrom_succ (outcomes : Nat → ToolOutcome Value)
    (hmax : maxAttempts.toNat = config.maxRetries.toNat + 1) (remaining first : Nat)
    (breaker : CircuitBreaker) :
    (∃ run, attemptsFrom config maxAttempts outcomes (remaining + 1) first breaker = some run ∧
      BackoffsFit config outcomes first breaker ∧
      Controlled outcomes first (remaining + 1) breaker run) ∨
    (first ≠ maxAttempts.toNat ∧ breaker.isOpen = false ∧ (outcomes first).succeeded = false ∧
      ((attemptsFrom config maxAttempts outcomes (remaining + 1) first breaker = none ∧
          ¬ BackoffFits config first) ∨
        ∃ next delay, next.threshold = breaker.threshold ∧
          next.consecutiveFailures.toNat = breaker.consecutiveFailures.toNat + 1 ∧
          BackoffFits config first ∧
          attemptsFrom config maxAttempts outcomes (remaining + 1) first breaker =
            (attemptsFrom config maxAttempts outcomes remaining (first + 1) next).map fun rest =>
              { rest with
                calls := breaker.consecutiveFailures :: rest.calls
                delays := delay :: rest.delays })) := by
  rw [attemptsFrom]
  cases hopen : breaker.isOpen with
  | true =>
      exact Or.inl ⟨_, if_pos rfl, backoffsFit_of_open hopen, controlled_of_open⟩
  | false =>
      simp only [Bool.false_eq_true, if_false]
      cases hcall : (outcomes first).succeeded with
      | true =>
          cases hout : outcomes first with
          | ok value =>
              refine Or.inl ⟨_, rfl, backoffsFit_of_succeeded hcall,
                controlled_of_stop hopen ?_ ?_ (Or.inl ⟨hcall, rfl⟩)⟩
              · rintro r hr
                cases hr
                rfl
              · rintro n reason herr
                cases herr
          | err message =>
              rw [hout] at hcall
              cases hcall
          | elapsed =>
              rw [hout] at hcall
              cases hcall
      | false =>
          obtain ⟨last, hafter, hreported, hexhausted⟩ := afterCall_of_failed config
            maxAttempts first breaker hcall
          obtain ⟨next, hthreshold, hcount, hcases⟩ := afterFailure_cases config
            maxAttempts first hopen last
          rw [hafter]
          rcases hcases with ⟨hlast, hstop⟩ | ⟨hnext, ⟨hnone, hnot⟩ | ⟨delay, hretry, hfits⟩⟩
          · rw [hstop]
            refine Or.inl ⟨_, rfl, ?_,
              controlled_of_stop hopen hreported hexhausted (Or.inr ⟨hcall, hcount⟩)⟩
            intro k hk
            omega
          · rw [hnone]
            exact Or.inr ⟨hnext, trivial, rfl, Or.inl ⟨rfl, hnot⟩⟩
          · rw [hretry]
            exact Or.inr ⟨hnext, trivial, rfl, Or.inr ⟨next, delay, hthreshold, hcount, hfits, rfl⟩⟩

/-- A run completes exactly when every delay it reaches can be computed, and is controlled then. -/
theorem attemptsFrom_cases (outcomes : Nat → ToolOutcome Value)
    (hmax : maxAttempts.toNat = config.maxRetries.toNat + 1) (remaining : Nat) :
    ∀ (first : Nat) (breaker : CircuitBreaker), first + remaining = maxAttempts.toNat →
      (attemptsFrom config maxAttempts outcomes (remaining + 1) first breaker = none ∧
        ¬ BackoffsFit config outcomes first breaker) ∨
      ∃ run, attemptsFrom config maxAttempts outcomes (remaining + 1) first breaker = some run ∧
        BackoffsFit config outcomes first breaker ∧
        Controlled outcomes first (remaining + 1) breaker run := by
  induction remaining with
  | zero =>
      intro first breaker hfirst
      rcases attemptsFrom_succ outcomes hmax 0 first breaker with hrun | ⟨hne, _⟩
      · exact Or.inr hrun
      · exact absurd hfirst hne
  | succ remaining ih =>
      intro first breaker hfirst
      rcases attemptsFrom_succ outcomes hmax (remaining + 1) first breaker with
        hrun | ⟨_, hclosed, hfailed, hnext⟩
      · exact Or.inr hrun
      · rcases hnext with ⟨hnone, hnot⟩ | ⟨next, delay, hthreshold, hcount, hfits, hrest⟩
        · refine Or.inl ⟨hnone, fun h => hnot (h 0 (by omega) ?_ ?_)⟩
          · exact UInt32.lt_iff_toNat_lt.1 (count_lt_of_closed hclosed)
          · intro i hi
            obtain rfl : i = 0 := Nat.le_zero.1 hi
            exact hfailed
        · have hiff := backoffsFit_succ hthreshold hcount hfailed hfits
          rw [hrest]
          rcases ih (first + 1) next (by omega) with ⟨hnone, hnot⟩ | ⟨run, hsome, hfit, hcontrolled⟩
          · exact Or.inl ⟨by rw [hnone]; rfl, fun h => hnot (hiff.1 h)⟩
          · exact Or.inr ⟨_, by rw [hsome]; rfl, hiff.2 hfit,
              hcontrolled.cons hclosed hfailed hthreshold hcount⟩

end Run

/-- An execution completes, controlled, exactly when the number of attempts and every delay that is reached
can be computed. -/
theorem execute_iff {Value : Type} (config : SandboxConfig) (breaker : CircuitBreaker)
    (outcomes : Nat → ToolOutcome Value) :
    (∃ run, executeWithControls config breaker outcomes = some run ∧
        Controlled outcomes 1 (config.maxRetries.toNat + 1) breaker run) ↔
      config.maxRetries.toNat + 1 < 2 ^ 32 ∧ BackoffsFit config outcomes 1 breaker := by
  rw [executeWithControls]
  cases hchecked : checked32 (config.maxRetries.toNat + 1) with
  | none =>
      have hle := checked32_eq_none.1 hchecked
      constructor
      · rintro ⟨run, hrun, _⟩
        cases hrun
      · rintro ⟨hlt, _⟩
        exact absurd hlt (Nat.not_lt.2 hle)
  | some maxAttempts =>
      have hmax : maxAttempts.toNat = config.maxRetries.toNat + 1 := checked32_eq_some.1 hchecked
      have hlt : config.maxRetries.toNat + 1 < 2 ^ 32 := hmax ▸ maxAttempts.toNat_lt
      have hcases := attemptsFrom_cases outcomes hmax config.maxRetries.toNat 1 breaker
        (by omega)
      simp only [hmax]
      rcases hcases with ⟨hnone, hnot⟩ | ⟨run, hsome, hfit, hcontrolled⟩
      · rw [hnone]
        constructor
        · rintro ⟨run, hrun, _⟩
          cases hrun
        · rintro ⟨_, hfit⟩
          exact absurd hfit hnot
      · exact iff_of_true ⟨run, hsome, hcontrolled⟩ ⟨hlt, hfit⟩

/-- Two failures with a base delay of `2⁶³` milliseconds: the second delay overflows. -/
theorem not_execute_completes :
    ¬ ∀ (config : SandboxConfig) (breaker : CircuitBreaker) (outcomes : Nat → ToolOutcome String),
      ∃ run, executeWithControls config breaker outcomes = some run ∧
        Controlled outcomes 1 (config.maxRetries.toNat + 1) breaker run := by
  intro h
  obtain ⟨run, hrun, _⟩ := h { timeoutMs := 1000, maxRetries := 2, backoffBaseMs := 0x8000000000000000 }
    { consecutiveFailures := 0, threshold := 10 } fun _ => .err "unreachable host"
  cases hrun

end Sandbox
end Aivcs
