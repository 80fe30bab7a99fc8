import Aivcs.Domain.Digest
import Aivcs.Lib.Hash
import Aivcs.State.Types

/-!
# Ci.Gate — the verdict on recorded events

`CiGate::evaluate` reads a list of events once, collecting violations and the names of the tools that were
called, completed and failed, and then looks for tools that were called and never heard of again.  The order
in which it walks the set of called tools is the parameter `order`.

* `evaluate_passed_iff` — the gate passes exactly when no event reports a failure and every tool that was
  called returned.
-/

namespace Aivcs
namespace Ci

open Lib State Domain

structure GateVerdict where
  passed : Bool
  violations : List String
  message : String

/-- `payload["tool_name"].as_str().unwrap_or("unknown")`. -/
def toolName (event : RunEvent Value) : String :=
  ((event.payload.doc.get? "tool_name").bind Doc.asStr?).getD "unknown"

/-- `as_i64`: integers above the range of `i64` are none. -/
def asI64? : Doc Number → Option Int
  | .num (.int n _) => if n < 2 ^ 63 then some n else none
  | _ => none

/-- `payload["exit_code"].as_i64().unwrap_or(-1)`. -/
def exitCode (event : RunEvent Value) : Int :=
  ((event.payload.doc.get? "exit_code").bind asI64?).getD (-1)

/-- `payload["error"].as_str().unwrap_or("Unknown error")`. -/
def errorText (event : RunEvent Value) : String :=
  ((event.payload.doc.get? "error").bind Doc.asStr?).getD "Unknown error"

/-- What the loop over the events has collected. -/
structure GateState where
  violations : List String
  toolsCalled : Finset String
  toolsCompleted : Finset String
  toolsFailed : Finset String

namespace GateState

def init : GateState :=
  ⟨[], ∅, ∅, ∅⟩

def see (g : GateState) (event : RunEvent Value) : GateState :=
  if event.kind = "tool_called" then
    { g with toolsCalled := insert (toolName event) g.toolsCalled }
  else if event.kind = "tool_returned" then
    -- A payload without an exit code counts as `-1`, a failure.
    if exitCode event = 0 then
      { g with toolsCompleted := insert (toolName event) g.toolsCompleted }
    else
      { g with
        violations := g.violations ++ ["Tool '" ++ toolName event ++
          "' returned non-zero exit code: " ++ toString (exitCode event)]
        toolsFailed := insert (toolName event) g.toolsFailed }
  else if event.kind = "tool_failed" then
    { g with
      violations := g.violations ++ ["Tool '" ++ toolName event ++ "' failed: " ++ errorText event]
      toolsFailed := insert (toolName event) g.toolsFailed }
  else g

end GateState

def evaluate (order : Iteration String) (events : List (RunEvent Value)) : GateVerdict :=
  let g := events.foldl GateState.see .init
  -- By name and not by call: one return answers every call of the tool.
  let missing := (order.list g.toolsCalled).filter fun tool =>
    tool ∉ g.toolsCompleted ∧ tool ∉ g.toolsFailed
  let violations := g.violations ++
    missing.map fun tool => "Tool '" ++ tool ++ "' was called but never completed"
  { passed := violations.isEmpty
    violations := violations
    message :=
      if violations.isEmpty then "All stages passed"
      else "Gate failed with " ++ toString violations.length ++ " violation(s)" }

/-! ## When the gate passes -/

/-- The event reports the failure of a tool. -/
def Reports (event : RunEvent Value) : Prop :=
  event.kind = "tool_failed" ∨ event.kind = "tool_returned" ∧ exitCode event ≠ 0

/-- The tool returned. -/
def Returned (event : RunEvent Value) : Prop :=
  event.kind = "tool_returned" ∧ exitCode event = 0

namespace GateState

variable (g : GateState) (event : RunEvent Value)

/-- Everything one event does to what is collected. -/
theorem see_spec :
    ((g.see event).violations = [] ↔ g.violations = [] ∧ ¬ Reports event) ∧
      (∀ t, t ∈ (g.see event).toolsCalled ↔
        t ∈ g.toolsCalled ∨ event.kind = "tool_called" ∧ toolName event = t) ∧
      (∀ t, t ∈ (g.see event).toolsCompleted ↔
        t ∈ g.toolsCompleted ∨ Returned event ∧ toolName event = t) ∧
      ∀ t, t ∈ (g.see event).toolsFailed ↔
        t ∈ g.toolsFailed ∨ Reports event ∧ toolName event = t := by
  have hins : ∀ (a t : String) (s : Finset String), t ∈ insert a s ↔ t ∈ s ∨ a = t := by
    simp [or_comm, eq_comm]
  unfold see Reports Returned
  by_cases hcalled : event.kind = "tool_called"
  · simp [hcalled, hins, -Finset.mem_insert]
  by_cases hreturned : event.kind = "tool_returned"
  · by_cases hcode : exitCode event = 0
    · simp [hreturned, hcode, hins, -Finset.mem_insert]
    · simp [hreturned, hcode, hins, -Finset.mem_insert]
  by_cases hfailed : event.kind = "tool_failed"
  · simp [hfailed, hins, -Finset.mem_insert]
  · simp [hcalled, hreturned, hfailed]

theorem foldl_see_spec (events : List (RunEvent Value)) :
    ((events.foldl see g).violations = [] ↔ g.violations = [] ∧ ∀ e ∈ events, ¬ Reports e) ∧
      (∀ t, t ∈ (events.foldl see g).toolsCalled ↔
        t ∈ g.toolsCalled ∨ ∃ e ∈ events, e.kind = "tool_called" ∧ toolName e = t) ∧
      (∀ t, t ∈ (events.foldl see g).toolsCompleted ↔
        t ∈ g.toolsCompleted ∨ ∃ e ∈ events, Returned e ∧ toolName e = t) ∧
      ∀ t, t ∈ (events.foldl see g).toolsFailed ↔
        t ∈ g.toolsFailed ∨ ∃ e ∈ events, Reports e ∧ toolName e = t := by
  induction events generalizing g with
  | nil =>
      simp
  | cons e events ih =>
      rcases ih (g.see e) with ⟨hv, hc, hd, hf⟩
      rcases g.see_spec e with ⟨hv', hc', hd', hf'⟩
      refine ⟨?_, fun t => ?_, fun t => ?_, fun t => ?_⟩
      · rw [List.foldl_cons, hv, hv', List.forall_mem_cons, and_assoc]
      · rw [List.foldl_cons, hc, hc', or_assoc]
        simp
      · rw [List.foldl_cons, hd, hd', or_assoc]
        simp
      · rw [List.foldl_cons, hf, hf', or_assoc]
        simp

end GateState

theorem evaluate_passed_iff (order : Iteration String) (events : List (RunEvent Value)) :
    (evaluate order events).passed = true ↔
      (∀ e ∈ events, ¬ Reports e) ∧
        ∀ e ∈ events, e.kind = "tool_called" →
          ∃ e' ∈ events, Returned e' ∧ toolName e' = toolName e := by
  rcases GateState.init.foldl_see_spec events with ⟨hviolations, hcalled, hcompleted, hfailed⟩
  have hinit : GateState.init.violations = [] := rfl
  rw [hinit] at hviolations
  simp only [evaluate, List.isEmpty_iff, List.append_eq_nil_iff, List.map_eq_nil_iff,
    List.filter_eq_nil_iff, order.mem_list, hviolations, true_and, decide_eq_true_eq]
  refine and_congr_right fun hnone => ?_
  -- Without a report no tool has failed, so a called tool must have returned.
  have hnot : ∀ t, t ∉ (events.foldl GateState.see .init).toolsFailed := by
    intro t ht
    rcases (hfailed t).1 ht with hinit | ⟨e, he, hreports, _⟩
    · cases hinit
    · exact hnone e he hreports
  constructor
  · intro h e he hkind
    have hmem := (hcalled (toolName e)).2 (.inr ⟨e, he, hkind, rfl⟩)
    have hdone : toolName e ∈ (events.foldl GateState.see .init).toolsCompleted := by
      by_contra hmissing
      exact h _ hmem ⟨hmissing, hnot _⟩
    exact ((hcompleted _).1 hdone).resolve_left (by simp [GateState.init])
  · rintro h t ht ⟨hmissing, _⟩
    rcases ((hcalled t).1 ht).resolve_left (by simp [GateState.init]) with ⟨e, he, hkind, rfl⟩
    exact hmissing ((hcompleted _).2 (.inr (h e he hkind)))

end Ci
end Aivcs
