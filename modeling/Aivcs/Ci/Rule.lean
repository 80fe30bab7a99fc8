import Mathlib.Data.String.Basic
import Aivcs.Ci.Gate
import Aivcs.Lib.Pairing

/-!
# Ci.Rule — the gate against its stated rule

The rule of the gate is about a sequence: a stage is called and afterwards it returns.  The gate itself keeps
sets of names.

* `GateRule` — the rule: no failure, and every call with a later return of its own;
* `GateRule.passed` — what meets the rule passes the gate;
* `passed_iff_gateRule_iff` — on which event lists the gate is the rule.
-/

namespace Aivcs
namespace Ci

open Lib State Domain

def isCalled (event : RunEvent Value) : Bool :=
  event.kind = "tool_called"

def isReturned (event : RunEvent Value) : Bool :=
  event.kind = "tool_returned"

/-- No tool failed, every return is a success, and the calls can be matched with later returns of the same
tool, one for each. -/
structure GateRule (events : List (RunEvent Value)) : Prop where
  no_failure : ∀ e ∈ events, e.kind ≠ "tool_failed"
  exit_zero : ∀ e ∈ events, e.kind = "tool_returned" → exitCode e = 0
  paired : Paired isCalled isReturned toolName events

/-- Looking on from any point of the list, each tool returns at least as often as it is called. -/
def CallsCovered (events : List (RunEvent Value)) : Prop :=
  ∀ n tool, (events.drop n).countP (fun e => isCalled e && toolName e = tool) ≤
    (events.drop n).countP fun e => isReturned e && toolName e = tool

theorem paired_iff_callsCovered (events : List (RunEvent Value)) :
    Paired isCalled isReturned toolName events ↔ CallsCovered events := by
  refine paired_iff fun e hcalled => ?_
  unfold isCalled at hcalled
  rw [decide_eq_true_eq] at hcalled
  rw [isReturned, hcalled]
  rfl

/-- The first two parts of the rule. -/
theorem no_reports_iff (events : List (RunEvent Value)) :
    (∀ e ∈ events, ¬ Reports e) ↔ (∀ e ∈ events, e.kind ≠ "tool_failed") ∧
      ∀ e ∈ events, e.kind = "tool_returned" → exitCode e = 0 := by
  rw [← forall₂_and]
  refine forall₂_congr fun e _ => ?_
  unfold Reports
  tauto

theorem gateRule_iff (events : List (RunEvent Value)) :
    GateRule events ↔ (∀ e ∈ events, ¬ Reports e) ∧ CallsCovered events := by
  rw [no_reports_iff, ← paired_iff_callsCovered]
  exact ⟨fun h => ⟨⟨h.no_failure, h.exit_zero⟩, h.paired⟩, fun h => ⟨h.1.1, h.1.2, h.2⟩⟩

/-- A call that is covered returns. -/
theorem CallsCovered.returns {events : List (RunEvent Value)} (h : CallsCovered events)
    (hnone : ∀ e ∈ events, ¬ Reports e) {e : RunEvent Value} (he : e ∈ events)
    (hcalled : e.kind = "tool_called") : ∃ e' ∈ events, Returned e' ∧ toolName e' = toolName e := by
  have hpos : 0 < events.countP fun a => isCalled a && toolName a = toolName e := by
    rw [List.countP_pos_iff]
    exact ⟨e, he, by simp [isCalled, hcalled]⟩
  have hreturn := Nat.lt_of_lt_of_le hpos (h 0 (toolName e))
  rw [List.drop_zero, List.countP_pos_iff] at hreturn
  rcases hreturn with ⟨e', he', hreturn⟩
  rw [Bool.and_eq_true, isReturned, decide_eq_true_eq, decide_eq_true_eq] at hreturn
  refine ⟨e', he', ⟨hreturn.1, ?_⟩, hreturn.2⟩
  exact ((no_reports_iff events).mp hnone).2 e' he' hreturn.1

theorem GateRule.passed (order : Iteration String) {events : List (RunEvent Value)}
    (h : GateRule events) : (evaluate order events).passed = true := by
  rw [gateRule_iff] at h
  rw [evaluate_passed_iff]
  exact ⟨h.1, fun e he hcalled => h.2.returns h.1 he hcalled⟩

/-- The gate is its rule on a list of events exactly when some event reports a failure, some tool that was
called never returned at all, or every call is covered by a later return. -/
theorem passed_iff_gateRule_iff (order : Iteration String) (events : List (RunEvent Value)) :
    ((evaluate order events).passed = true ↔ GateRule events) ↔
      (∃ e ∈ events, Reports e) ∨
        (∃ e ∈ events, e.kind = "tool_called" ∧
          ∀ e' ∈ events, Returned e' → toolName e' ≠ toolName e) ∨
        CallsCovered events := by
  constructor
  · intro h
    by_cases hpassed : (evaluate order events).passed = true
    · exact .inr (.inr ((gateRule_iff events).mp (h.mp hpassed)).2)
    · rw [evaluate_passed_iff, not_and_or] at hpassed
      push Not at hpassed
      rcases hpassed with hreports | ⟨e, he, hcalled, hmissing⟩
      · exact .inl hreports
      · exact .inr (.inl ⟨e, he, hcalled, hmissing⟩)
  · intro h
    refine ⟨fun hpassed => ?_, GateRule.passed order⟩
    rw [evaluate_passed_iff] at hpassed
    rcases h with ⟨e, he, hreports⟩ | ⟨e, he, hcalled, hmissing⟩ | hcovered
    · exact absurd hreports (hpassed.1 e he)
    · rcases hpassed.2 e he hcalled with ⟨e', he', hreturned, hname⟩
      exact absurd hname (hmissing e' he' hreturned)
    · exact (gateRule_iff events).mpr ⟨hpassed.1, hcovered⟩

/-! ## A call after the last return -/

/-- The tool `fmt` returns and is called once more. -/
def calledAgain : List (RunEvent Value) :=
  [{ seq := 1
     kind := "tool_returned"
     payload :=
       { doc := .obj [("tool_name", .str "fmt"), ("exit_code", .num (.int 0 (by decide)))]
         unique := by simp }
     timestamp := 0 },
   { seq := 2
     kind := "tool_called"
     payload := { doc := .obj [("tool_name", .str "fmt")], unique := by simp }
     timestamp := 0 }]

/-- The gate passes, although the call is never answered. -/
theorem passed_of_calledAgain :
    (evaluate (Iteration.sorted String) calledAgain).passed = true ∧ ¬ GateRule calledAgain := by
  constructor
  · have hname : ∀ e ∈ calledAgain, toolName e = "fmt" := by
      decide +kernel
    have hreports : ∀ e ∈ calledAgain, ¬ Reports e := by
      unfold Reports
      decide +kernel
    have hreturned : ∃ e ∈ calledAgain, Returned e := by
      unfold Returned
      decide +kernel
    rw [evaluate_passed_iff]
    refine ⟨hreports, fun e he _ => ?_⟩
    rcases hreturned with ⟨e', he', hreturned⟩
    exact ⟨e', he', hreturned, (hname e' he').trans (hname e he).symm⟩
  · rw [gateRule_iff]
    rintro ⟨-, hcovered⟩
    exact absurd (hcovered 1 "fmt") (by decide +kernel)

end Ci
end Aivcs
