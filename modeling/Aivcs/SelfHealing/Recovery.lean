import Mathlib.Data.List.Infix
import Aivcs.State.Types

/-!
# SelfHealing.Recovery — the bounded recovery loop

`self_healing`: a failure is classified, the policy decides on an action, the action is applied, and so on
until it succeeds, nothing is left to try or the attempts are used up.

The callback that applies an action is a function with a state of its own, so it may answer in any way.
Lowercasing is a parameter; nothing here depends on what it does.  A run keeps the calls of the callback
beside the log.  `recovery_obeys_policy` says that they are real (each answer is the callback's own, from the
state the calls before it left), that they go on until one succeeds, the attempts are used up or nothing is
left to try, and that the log tells the truth about them.
-/

namespace Aivcs
namespace SelfHealing

open Aivcs.State

/-! ## Signals, actions and policies -/

inductive FailureClass where
  | build
  | test
  | runtime
  | integration
  | unknown
  deriving DecidableEq

structure FailureSignal where
  stage : String
  message : String
  exitCode : Option Int32
  flakyHint : Bool
  deriving DecidableEq

inductive RecoveryAction where
  | retry
  | patchForward
  | rollback
  | escalate
  deriving DecidableEq

inductive RecoveryOutcome where
  | recovered
  | failed
  deriving DecidableEq

structure RecoveryPolicy where
  maxAttempts : UInt32
  maxFlakyRetries : UInt32
  allowPatchForward : Bool
  allowRollback : Bool
  deriving DecidableEq

structure RecoveryDecision where
  attempt : Nat
  failureClass : FailureClass
  action : RecoveryAction
  rationale : String
  deriving DecidableEq

structure RecoveryAttemptResult where
  success : Bool
  nextFailure : Option FailureSignal
  deriving DecidableEq

structure RecoveryLog where
  runId : String
  policy : RecoveryPolicy
  initialFailure : FailureSignal
  decisions : List RecoveryDecision
  outcome : RecoveryOutcome
  attemptsUsed : Nat
  finalFailure : Option FailureSignal
  evaluatedAt : Timestamp
  deriving DecidableEq

/-- The text has the pattern in it. -/
def contains (text pattern : String) : Bool :=
  decide (pattern.toList <:+: text.toList)

def classifyFailure (lower : String → String) (signal : FailureSignal) : FailureClass :=
  let stage := lower signal.stage
  let msg := lower signal.message
  if contains stage "build" || contains stage "compile" || contains msg "compil" ||
      contains msg "linker error" then
    .build
  else if contains stage "test" || contains msg "assertion" || contains msg "test failed" ||
      contains msg "snapshot mismatch" then
    .test
  else if contains stage "runtime" || contains msg "panic" || contains msg "segmentation fault" ||
      contains msg "null pointer" then
    .runtime
  else if contains stage "integration" || contains msg "contract" || contains msg "handshake" ||
      contains msg "dependency unavailable" then
    .integration
  else
    .unknown

def decideAction (failureClass : FailureClass) (signal : FailureSignal) (policy : RecoveryPolicy)
    (flakyRetriesUsed : UInt32) : RecoveryAction × String :=
  if failureClass = .test ∧ signal.flakyHint = true ∧ flakyRetriesUsed < policy.maxFlakyRetries then
    (.retry, "flaky signal detected; bounded retry permitted")
  else if policy.allowPatchForward = true ∧ (failureClass = .build ∨ failureClass = .test) then
    (.patchForward, "build/test failure; patch-forward is enabled")
  else if policy.allowRollback = true ∧ (failureClass = .runtime ∨ failureClass = .integration) then
    (.rollback, "runtime/integration failure; rollback is enabled")
  else
    (.escalate, "no safe automated action available under policy")

/-! ## The loop -/

/-- One call of the callback: what it was given and what it answered. -/
structure Call where
  attempt : Nat
  action : RecoveryAction
  signal : FailureSignal
  result : RecoveryAttemptResult
  deriving DecidableEq

/-- What the rest of the loop adds to the log, the calls it makes and the state it leaves the callback in. -/
structure Recovery (S : Type) where
  decisions : List RecoveryDecision
  outcome : RecoveryOutcome
  attemptsUsed : Nat
  finalFailure : Option FailureSignal
  calls : List Call
  state : S

section Loop

variable {S : Type} (lower : String → String) (policy : RecoveryPolicy)
  (applyAction : S → Nat → RecoveryAction → FailureSignal → RecoveryAttemptResult × S)

/-- The attempts that remain after `attemptsUsed` of them. -/
def recoverFrom : Nat → Nat → FailureSignal → UInt32 → S → Recovery S
  | 0, attemptsUsed, current, _, s =>
      { decisions := []
        outcome := .failed
        attemptsUsed := attemptsUsed
        finalFailure := some current
        calls := []
        state := s }
  | remaining + 1, attemptsUsed, current, flakyRetriesUsed, s =>
      let attempt := attemptsUsed + 1
      let failureClass := classifyFailure lower current
      let chosen := decideAction failureClass current policy flakyRetriesUsed
      let flakyRetriesUsed :=
        if chosen.1 = .retry ∧ current.flakyHint = true then flakyRetriesUsed + 1 else flakyRetriesUsed
      let decision : RecoveryDecision :=
        { attempt := attempt
          failureClass := failureClass
          action := chosen.1
          rationale := chosen.2 }
      if chosen.1 = .escalate then
        { decisions := [decision]
          outcome := .failed
          attemptsUsed := attempt
          finalFailure := some current
          calls := []
          state := s }
      else
        let answer := applyAction s attempt chosen.1 current
        let call : Call :=
          { attempt := attempt, action := chosen.1, signal := current, result := answer.1 }
        if answer.1.success = true then
          { decisions := [decision]
            outcome := .recovered
            attemptsUsed := attempt
            finalFailure := none
            calls := [call]
            state := answer.2 }
        else
          let rest := recoverFrom remaining attempt (answer.1.nextFailure.getD current)
            flakyRetriesUsed answer.2
          { rest with
            decisions := decision :: rest.decisions
            calls := call :: rest.calls }

/-- `execute_recovery_loop`, with the calls it makes and the state it leaves the callback in. -/
def executeRecoveryLoop (runId : String) (initialFailure : FailureSignal) (s : S)
    (evaluatedAt : Timestamp) : RecoveryLog × List Call × S :=
  let r := recoverFrom lower policy applyAction policy.maxAttempts.toNat 0 initialFailure 0 s
  ({ runId := runId
     policy := policy
     initialFailure := initialFailure
     decisions := r.decisions
     outcome := r.outcome
     attemptsUsed := r.attemptsUsed
     finalFailure := r.finalFailure
     evaluatedAt := evaluatedAt }, r.calls, r.state)

end Loop

/-! ## What a run does -/

/-- The failure reported last, if the first one known was `current`. -/
def latest (current : FailureSignal) (calls : List Call) : FailureSignal :=
  calls.foldl (fun signal call => call.result.nextFailure.getD signal) current

/-- The calls, made one after the other from the first state, get these answers and leave the last state. -/
inductive Answered {S : Type}
    (applyAction : S → Nat → RecoveryAction → FailureSignal → RecoveryAttemptResult × S) :
    S → List Call → S → Prop where
  | nil (s : S) : Answered applyAction s [] s
  | cons {s s' : S} {call : Call} {calls : List Call}
      (hresult : call.result = (applyAction s call.attempt call.action call.signal).1)
      (hrest : Answered applyAction (applyAction s call.attempt call.action call.signal).2 calls s') :
      Answered applyAction s (call :: calls) s'

/-- The retries among the calls. -/
def retries (calls : List Call) : Nat :=
  calls.countP (·.action = .retry)

/-- The policy allows the call. -/
structure Permitted (lower : String → String) (policy : RecoveryPolicy) (call : Call) : Prop where
  escalate : call.action ≠ .escalate
  patchForward : call.action = .patchForward → policy.allowPatchForward = true
  rollback : call.action = .rollback → policy.allowRollback = true
  retry : call.action = .retry →
    classifyFailure lower call.signal = .test ∧ call.signal.flakyHint = true

/-- What holds of the part of a run that may use `bound` attempts after `attemptsUsed` of them. -/
structure Obeys {S : Type} (lower : String → String) (policy : RecoveryPolicy)
    (bound attemptsUsed flakyRetriesUsed : Nat) (current : FailureSignal) (r : Recovery S) : Prop where
  calls_le : r.calls.length ≤ bound
  retries_le : flakyRetriesUsed + retries r.calls ≤ policy.maxFlakyRetries.toNat
  permitted : ∀ call ∈ r.calls, Permitted lower policy call
  failed : ∀ call ∈ r.calls.dropLast, call.result.success = false
  numbered : r.decisions.map RecoveryDecision.attempt =
      List.range' (attemptsUsed + 1) r.decisions.length ∧
    r.attemptsUsed = attemptsUsed + r.decisions.length
  classes : ∀ i d, r.decisions[i]? = some d →
    d.failureClass = classifyFailure lower (latest current (r.calls.take i))
  chosen : ∀ (i : Nat) (d : RecoveryDecision), r.decisions[i]? = some d →
    (d.action, d.rationale) = decideAction d.failureClass (latest current (r.calls.take i)) policy
      (UInt32.ofNat (flakyRetriesUsed + retries (r.calls.take i)))
  carriedOut : ∀ (i : Nat) (d : RecoveryDecision), r.decisions[i]? = some d → d.action ≠ .escalate →
    i < r.calls.length
  decided : ∀ i call, r.calls[i]? = some call → call.signal = latest current (r.calls.take i) ∧
    ∃ d, r.decisions[i]? = some d ∧ d.attempt = call.attempt ∧ d.action = call.action
  stopped : r.outcome = .recovered ∨ r.decisions.length = bound ∨
    ∃ d : RecoveryDecision, r.decisions.getLast? = some d ∧ d.action = .escalate
  outcome : r.outcome = .recovered ↔ ∃ call, r.calls.getLast? = some call ∧ call.result.success = true
  final : r.finalFailure = if r.outcome = .recovered then none else some (latest current r.calls)

/-- An action is decided on only where its condition holds. -/
theorem decideAction_spec (failureClass : FailureClass) (signal : FailureSignal)
    (policy : RecoveryPolicy) (flakyRetriesUsed : UInt32) :
    ((decideAction failureClass signal policy flakyRetriesUsed).1 = .retry →
      failureClass = .test ∧ signal.flakyHint = true ∧ flakyRetriesUsed < policy.maxFlakyRetries) ∧
    ((decideAction failureClass signal policy flakyRetriesUsed).1 = .patchForward →
      policy.allowPatchForward = true) ∧
    ((decideAction failureClass signal policy flakyRetriesUsed).1 = .rollback →
      policy.allowRollback = true) := by
  rw [decideAction]
  -- The conditions are tried in this order, and the last resort is to escalate.
  by_cases hretry : failureClass = .test ∧ signal.flakyHint = true ∧
      flakyRetriesUsed < policy.maxFlakyRetries
  · rw [if_pos hretry]
    exact ⟨fun _ => hretry, fun h => (by cases h), fun h => (by cases h)⟩
  · rw [if_neg hretry]
    by_cases hpatch : policy.allowPatchForward = true ∧ (failureClass = .build ∨ failureClass = .test)
    · rw [if_pos hpatch]
      exact ⟨fun h => (by cases h), fun _ => hpatch.1, fun h => (by cases h)⟩
    · rw [if_neg hpatch]
      by_cases hrollback : policy.allowRollback = true ∧
          (failureClass = .runtime ∨ failureClass = .integration)
      · rw [if_pos hrollback]
        exact ⟨fun h => (by cases h), fun h => (by cases h), fun _ => hrollback.1⟩
      · rw [if_neg hrollback]
        exact ⟨fun h => (by cases h), fun h => (by cases h), fun h => (by cases h)⟩

section Run

variable {S : Type} {lower : String → String} {policy : RecoveryPolicy}
  {bound attemptsUsed flakyRetriesUsed : Nat} {current : FailureSignal}

theorem retries_cons (call : Call) (calls : List Call) :
    retries (call :: calls) = (if call.action = .retry then 1 else 0) + retries calls := by
  rw [retries, List.countP_cons, Nat.add_comm, retries]
  by_cases haction : call.action = .retry
  · simp [haction]
  · simp [haction]

/-- A run that ends without another call. -/
theorem obeys_of_end {decisions : List RecoveryDecision} {s : S}
    (hflaky : flakyRetriesUsed ≤ policy.maxFlakyRetries.toNat)
    (hnumbered : decisions.map RecoveryDecision.attempt =
      List.range' (attemptsUsed + 1) decisions.length)
    (hclass : ∀ d ∈ decisions, d.failureClass = classifyFailure lower current)
    (hchosen : ∀ d ∈ decisions, (d.action, d.rationale) =
      decideAction d.failureClass current policy (UInt32.ofNat flakyRetriesUsed))
    (hescalate : ∀ d ∈ decisions, d.action = .escalate)
    (hstopped : decisions.length = bound ∨
      ∃ d : RecoveryDecision, decisions.getLast? = some d ∧ d.action = .escalate) :
    Obeys lower policy bound attemptsUsed flakyRetriesUsed current
      { decisions := decisions
        outcome := .failed
        attemptsUsed := attemptsUsed + decisions.length
        finalFailure := some current
        calls := []
        state := s } where
  calls_le := Nat.zero_le bound
  retries_le := hflaky
  permitted call h := absurd h List.not_mem_nil
  failed call h := absurd h List.not_mem_nil
  numbered := ⟨hnumbered, rfl⟩
  classes i d h := by
    rw [List.take_nil]
    exact hclass d (List.mem_of_getElem? h)
  chosen i d h := by
    rw [List.take_nil]
    exact hchosen d (List.mem_of_getElem? h)
  carriedOut i d h hne := absurd (hescalate d (List.mem_of_getElem? h)) hne
  decided i call h := by
    rw [List.getElem?_nil] at h
    cases h
  stopped := .inr hstopped
  outcome := by
    constructor
    · intro h
      cases h
    · rintro ⟨call, h, _⟩
      cases h
  final := rfl

/-- A run whose one call succeeds. -/
theorem obeys_of_success {decision : RecoveryDecision} {call : Call} {s : S}
    (hflaky : flakyRetriesUsed ≤ policy.maxFlakyRetries.toNat)
    (hretry : call.action = .retry → flakyRetriesUsed < policy.maxFlakyRetries.toNat)
    (hpermitted : Permitted lower policy call) (hattempt : decision.attempt = attemptsUsed + 1)
    (hclass : decision.failureClass = classifyFailure lower current)
    (hchosen : (decision.action, decision.rationale) =
      decideAction decision.failureClass current policy (UInt32.ofNat flakyRetriesUsed))
    (hdecided : call.signal = current ∧ decision.attempt = call.attempt ∧ decision.action = call.action)
    (hsuccess : call.result.success = true) :
    Obeys lower policy (bound + 1) attemptsUsed flakyRetriesUsed current
      { decisions := [decision]
        outcome := .recovered
        attemptsUsed := attemptsUsed + 1
        finalFailure := none
        calls := [call]
        state := s } where
  calls_le := Nat.succ_le_succ (Nat.zero_le bound)
  retries_le := by
    -- The call counts if it is a retry, and then there was one left.
    by_cases haction : call.action = .retry
    · simpa [retries, haction] using Nat.succ_le_of_lt (hretry haction)
    · simpa [retries, haction] using hflaky
  permitted c h := List.mem_singleton.1 h ▸ hpermitted
  failed c h := absurd h List.not_mem_nil
  numbered := ⟨by simp [hattempt], rfl⟩
  classes i d h := by
    cases i with
    | zero =>
        cases h
        exact hclass
    | succ i =>
        cases h
  chosen i d h := by
    cases i with
    | zero =>
        cases h
        exact hchosen
    | succ i =>
        cases h
  carriedOut i d h _ := by
    cases i with
    | zero => exact Nat.one_pos
    | succ i => cases h
  decided i c h := by
    cases i with
    | zero =>
        cases h
        exact ⟨hdecided.1, decision, rfl, hdecided.2⟩
    | succ i =>
        cases h
  stopped := .inl rfl
  outcome := iff_of_true rfl ⟨call, rfl, hsuccess⟩
  final := rfl

/-- A call that fails, and the run that follows with the failure it reports. -/
theorem Obeys.cons {decision : RecoveryDecision} {call : Call} {rest : Recovery S} {flaky : Nat}
    (h : Obeys lower policy bound (attemptsUsed + 1) flaky
      (call.result.nextFailure.getD current) rest)
    (hflaky : flaky = flakyRetriesUsed + if call.action = .retry then 1 else 0)
    (hpermitted : Permitted lower policy call) (hattempt : decision.attempt = attemptsUsed + 1)
    (hclass : decision.failureClass = classifyFailure lower current)
    (hchosen : (decision.action, decision.rationale) =
      decideAction decision.failureClass current policy (UInt32.ofNat flakyRetriesUsed))
    (hdecided : call.signal = current ∧ decision.attempt = call.attempt ∧ decision.action = call.action)
    (hfailed : call.result.success = false) :
    Obeys lower policy (bound + 1) attemptsUsed flakyRetriesUsed current
      { rest with decisions := decision :: rest.decisions, calls := call :: rest.calls } where
  calls_le := Nat.succ_le_succ h.calls_le
  retries_le := by
    have hrest := h.retries_le
    rw [hflaky, Nat.add_assoc, ← retries_cons] at hrest
    exact hrest
  permitted := List.forall_mem_cons.2 ⟨hpermitted, h.permitted⟩
  failed := by
    cases hcalls : rest.calls with
    | nil => exact fun c hc => absurd hc List.not_mem_nil
    | cons c calls =>
        rw [List.dropLast_cons_cons, ← hcalls]
        exact List.forall_mem_cons.2 ⟨hfailed, h.failed⟩
  numbered := by
    obtain ⟨hnumbered, hused⟩ := h.numbered
    refine ⟨?_, ?_⟩
    · rw [List.map_cons, List.length_cons, List.range'_succ, hnumbered, hattempt]
    · simp only [hused, List.length_cons]
      omega
  classes i d hd := by
    cases i with
    | zero =>
        cases hd
        exact hclass
    | succ i =>
        exact h.classes i d hd
  chosen i d hd := by
    cases i with
    | zero =>
        cases hd
        exact hchosen
    | succ i =>
        -- The retries so far are this call's and those of the calls after it.
        have hsum : flakyRetriesUsed + retries ((call :: rest.calls).take (i + 1)) =
            flaky + retries (rest.calls.take i) := by
          rw [hflaky, List.take_succ_cons, retries_cons, Nat.add_assoc]
        rw [hsum]
        exact h.chosen i d hd
  carriedOut i d hd hne := by
    cases i with
    | zero => exact Nat.succ_pos _
    | succ i => exact Nat.succ_lt_succ (h.carriedOut i d hd hne)
  decided i c hc := by
    cases i with
    | zero =>
        cases hc
        exact ⟨hdecided.1, decision, rfl, hdecided.2⟩
    | succ i =>
        exact h.decided i c hc
  stopped := by
    obtain hrecovered | hlength | ⟨d, hlast, hescalate⟩ := h.stopped
    · exact .inl hrecovered
    · exact .inr (.inl (congrArg (· + 1) hlength))
    · refine .inr (.inr ⟨d, ?_, hescalate⟩)
      rw [List.getLast?_cons, hlast]
      rfl
  outcome := by
    cases hcalls : rest.calls with
    | nil =>
        -- Nothing is called after the failure, so the run has not recovered.
        have hnot : rest.outcome ≠ .recovered := by
          intro hrecovered
          obtain ⟨c, hlast, _⟩ := h.outcome.1 hrecovered
          rw [hcalls] at hlast
          cases hlast
        refine iff_of_false hnot ?_
        rintro ⟨c, hlast, hsuccess⟩
        cases hlast
        exact absurd hsuccess (hfailed ▸ Bool.false_ne_true)
    | cons c calls =>
        have houtcome := h.outcome
        rw [hcalls] at houtcome
        rw [List.getLast?_cons_cons]
        exact houtcome
  final := h.final

/-- Whatever the callback answers, the rest of a run obeys the policy. -/
theorem recoverFrom_obeys (lower : String → String) (policy : RecoveryPolicy)
    (applyAction : S → Nat → RecoveryAction → FailureSignal → RecoveryAttemptResult × S)
    (remaining : Nat) : ∀ (attemptsUsed : Nat) (current : FailureSignal) (flaky : UInt32) (s : S),
      flaky ≤ policy.maxFlakyRetries →
      Obeys lower policy remaining attemptsUsed flaky.toNat current
        (recoverFrom lower policy applyAction remaining attemptsUsed current flaky s) := by
  induction remaining with
  | zero =>
      intro attemptsUsed current flaky s hflaky
      exact obeys_of_end (UInt32.le_iff_toNat_le.1 hflaky) rfl (fun d h => absurd h List.not_mem_nil)
        (fun d h => absurd h List.not_mem_nil) (fun d h => absurd h List.not_mem_nil) (.inl rfl)
  | succ remaining ih =>
      intro attemptsUsed current flaky s hflaky
      have hflaky' := UInt32.le_iff_toNat_le.1 hflaky
      rw [recoverFrom]
      obtain ⟨hretry, hpatch, hrollback⟩ :=
        decideAction_spec (classifyFailure lower current) current policy flaky
      have hchosen : decideAction (classifyFailure lower current) current policy flaky =
          decideAction (classifyFailure lower current) current policy (UInt32.ofNat flaky.toNat) := by
        rw [UInt32.ofNat_toNat]
      generalize decideAction (classifyFailure lower current) current policy flaky = chosen at *
      dsimp only
      by_cases hescalate : chosen.1 = .escalate
      · rw [if_pos hescalate]
        refine obeys_of_end hflaky' rfl ?_ ?_ ?_ (.inr ⟨_, rfl, hescalate⟩)
        · exact List.forall_mem_singleton.2 rfl
        · exact List.forall_mem_singleton.2 hchosen
        · exact List.forall_mem_singleton.2 hescalate
      · rw [if_neg hescalate]
        generalize applyAction s (attemptsUsed + 1) chosen.1 current = answer
        have hpermitted : Permitted lower policy
            { attempt := attemptsUsed + 1, action := chosen.1, signal := current, result := answer.1 } :=
          ⟨hescalate, hpatch, hrollback, fun h => ⟨(hretry h).1, (hretry h).2.1⟩⟩
        by_cases hsuccess : answer.1.success = true
        · rw [if_pos hsuccess]
          exact obeys_of_success hflaky' (fun h => UInt32.lt_iff_toNat_lt.1 (hretry h).2.2) hpermitted rfl
            rfl hchosen ⟨rfl, rfl, rfl⟩ hsuccess
        · rw [if_neg hsuccess]
          by_cases haction : chosen.1 = .retry
          · obtain ⟨_, hhint, hlt⟩ := hretry haction
            have hlt' := UInt32.lt_iff_toNat_lt.1 hlt
            -- A retry is counted, and the count stays within the policy.
            have hcount : (flaky + 1).toNat = flaky.toNat + 1 := by
              have hbound := policy.maxFlakyRetries.toNat_lt
              rw [UInt32.toNat_add, UInt32.toNat_one]
              exact Nat.mod_eq_of_lt (by omega)
            rw [if_pos ⟨haction, hhint⟩]
            exact (ih _ _ _ _ (UInt32.le_iff_toNat_le.2 (hcount ▸ hlt'))).cons
              (by rw [hcount, if_pos haction]) hpermitted rfl rfl hchosen ⟨rfl, rfl, rfl⟩
              (Bool.not_eq_true _ ▸ hsuccess)
          · rw [if_neg fun h => haction h.1]
            exact (ih _ _ _ _ hflaky).cons (by rw [if_neg haction, Nat.add_zero]) hpermitted rfl rfl
              hchosen ⟨rfl, rfl, rfl⟩ (Bool.not_eq_true _ ▸ hsuccess)

/-- The calls a run keeps are the ones it made of the callback, in the states they left. -/
theorem recoverFrom_answered (lower : String → String) (policy : RecoveryPolicy)
    (applyAction : S → Nat → RecoveryAction → FailureSignal → RecoveryAttemptResult × S)
    (remaining : Nat) : ∀ (attemptsUsed : Nat) (current : FailureSignal) (flaky : UInt32) (s : S),
      Answered applyAction s
        (recoverFrom lower policy applyAction remaining attemptsUsed current flaky s).calls
        (recoverFrom lower policy applyAction remaining attemptsUsed current flaky s).state := by
  induction remaining with
  | zero =>
      intro attemptsUsed current flaky s
      exact .nil s
  | succ remaining ih =>
      intro attemptsUsed current flaky s
      rw [recoverFrom]
      generalize decideAction (classifyFailure lower current) current policy flaky = chosen
      dsimp only
      by_cases hescalate : chosen.1 = .escalate
      · rw [if_pos hescalate]
        exact .nil s
      · rw [if_neg hescalate]
        -- Whether it goes on or not, this call was answered in the state it was made in.
        by_cases hsuccess : (applyAction s (attemptsUsed + 1) chosen.1 current).1.success = true
        · rw [if_pos hsuccess]
          exact .cons rfl (.nil _)
        · rw [if_neg hsuccess]
          exact .cons rfl (ih _ _ _ _)

end Run

/-- The log tells the truth about the calls, and the calls keep to its policy. -/
structure RecoveryLog.Describes (lower : String → String) (log : RecoveryLog) (calls : List Call) :
    Prop where
  calls_le : calls.length ≤ log.policy.maxAttempts.toNat
  retries_le : retries calls ≤ log.policy.maxFlakyRetries.toNat
  permitted : ∀ call ∈ calls, Permitted lower log.policy call
  failed : ∀ call ∈ calls.dropLast, call.result.success = false
  numbered : log.decisions.map RecoveryDecision.attempt = List.range' 1 log.attemptsUsed
  classes : ∀ i d, log.decisions[i]? = some d →
    d.failureClass = classifyFailure lower (latest log.initialFailure (calls.take i))
  chosen : ∀ (i : Nat) (d : RecoveryDecision), log.decisions[i]? = some d →
    (d.action, d.rationale) =
      decideAction d.failureClass (latest log.initialFailure (calls.take i)) log.policy
        (UInt32.ofNat (retries (calls.take i)))
  carriedOut : ∀ (i : Nat) (d : RecoveryDecision), log.decisions[i]? = some d → d.action ≠ .escalate →
    i < calls.length
  decided : ∀ i call, calls[i]? = some call →
    call.signal = latest log.initialFailure (calls.take i) ∧
      ∃ d, log.decisions[i]? = some d ∧ d.attempt = call.attempt ∧ d.action = call.action
  stopped : log.outcome = .recovered ∨ log.attemptsUsed = log.policy.maxAttempts.toNat ∨
    ∃ d : RecoveryDecision, log.decisions.getLast? = some d ∧ d.action = .escalate
  outcome : log.outcome = .recovered ↔
    ∃ call, calls.getLast? = some call ∧ call.result.success = true
  final : log.finalFailure =
    if log.outcome = .recovered then none else some (latest log.initialFailure calls)

/-- Whatever the callback answers, a run keeps to its policy, calls the callback until it is done, and logs
what it did. -/
theorem recovery_obeys_policy {S : Type} (lower : String → String) (policy : RecoveryPolicy)
    (applyAction : S → Nat → RecoveryAction → FailureSignal → RecoveryAttemptResult × S)
    (runId : String) (initialFailure : FailureSignal) (s : S) (evaluatedAt : Timestamp) :
    let run := executeRecoveryLoop lower policy applyAction runId initialFailure s evaluatedAt
    run.1.runId = runId ∧ run.1.policy = policy ∧ run.1.initialFailure = initialFailure ∧
      run.1.evaluatedAt = evaluatedAt ∧
      Answered applyAction s run.2.1 run.2.2 ∧ run.1.Describes lower run.2.1 := by
  intro run
  -- The loop from its start: no attempt and no flaky retry is used up yet.
  have hobeys := recoverFrom_obeys lower policy applyAction
    policy.maxAttempts.toNat 0 initialFailure 0 s (UInt32.le_iff_toNat_le.2 (Nat.zero_le _))
  obtain ⟨hnumbered, hused⟩ := hobeys.numbered
  have hlength : run.1.attemptsUsed = run.1.decisions.length := hused.trans (Nat.zero_add _)
  refine ⟨rfl, rfl, rfl, rfl, recoverFrom_answered lower policy applyAction _ 0 initialFailure 0 s, ?_⟩
  exact
    { calls_le := hobeys.calls_le
      retries_le := (Nat.zero_add _).symm.trans_le hobeys.retries_le
      permitted := hobeys.permitted
      failed := hobeys.failed
      numbered := hnumbered.trans (congrArg (List.range' 1) hlength.symm)
      classes := hobeys.classes
      chosen := fun i d h => by
        have hchosen := hobeys.chosen i d h
        rw [UInt32.toNat_zero, Nat.zero_add] at hchosen
        exact hchosen
      carriedOut := hobeys.carriedOut
      decided := hobeys.decided
      stopped := hobeys.stopped.imp_right (Or.imp_left hlength.trans)
      outcome := hobeys.outcome
      final := hobeys.final }

/-! ### A flaky test that turns out to be a broken build -/

def demoPolicy : RecoveryPolicy where
  maxAttempts := 3
  maxFlakyRetries := 1
  allowPatchForward := true
  allowRollback := false

def demoFailure : FailureSignal where
  stage := "test"
  message := "assertion"
  exitCode := some 101
  flakyHint := true

def demoBuildFailure : FailureSignal where
  stage := "build"
  message := "linker error"
  exitCode := none
  flakyHint := false

/-- The retry meets another failure, the patch works; the state counts the calls. -/
def demoApply (n attempt : Nat) (_ : RecoveryAction) (_ : FailureSignal) : RecoveryAttemptResult × Nat :=
  ({ success := decide (attempt = 2), nextFailure := some demoBuildFailure }, n + 1)

theorem recovery_obeys_policy_demo : ∃ log calls,
    executeRecoveryLoop id demoPolicy demoApply "run-1" demoFailure 0 7 = (log, calls, 2) ∧
      calls.map Call.action = [.retry, .patchForward] ∧
      log.decisions.map RecoveryDecision.failureClass = [.test, .build] ∧
      log.outcome = .recovered ∧ log.finalFailure = none ∧
      Answered demoApply 0 calls 2 ∧ log.Describes id calls := by
  obtain ⟨_, _, _, _, hanswered, hdescribes⟩ :=
    recovery_obeys_policy id demoPolicy demoApply "run-1" demoFailure 0 7
  exact ⟨_, _, rfl, by decide +kernel, by decide +kernel, by decide +kernel, by decide +kernel, hanswered,
    hdescribes⟩

end SelfHealing
end Aivcs
