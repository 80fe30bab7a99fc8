import Mathlib.Algebra.BigOperators.Group.List.Basic
import Mathlib.Algebra.Order.Field.Basic
import Mathlib.Algebra.Order.Field.Rat
import Aivcs.Domain.Digest
import Aivcs.Lib.JsonNulls
import Aivcs.Lib.Map

/-!
# Domain.Eval — evaluation suites and their runner

`run_with_outputs` scores the cases of a suite against recorded outputs, and with `fail_fast` stops after the
first case that fails.  The pass rate is taken over the cases it got to.

Scores and rates are exact rationals where the source has `f32`.  How a suite is finalized is left out but for
what the runner looks at: the digest is not empty.

* `evalCase` does not look at the thresholds, so the two ways of running a suite differ in how many cases
  they reach only (`runCases_false`, `runCases_true`);
* `failFast_never_easier_iff` — for which suites stopping early makes nothing easier.
-/

namespace Aivcs
namespace Domain

open Lib

/-! ## Suites -/

inductive ScorerType where
  | exactMatch
  | semanticSimilarity
  | toolCallSequence
  | custom (name : String)

structure ScorerConfig where
  scorerType : ScorerType

structure EvalThresholds where
  minPassRate : ℚ
  failFast : Bool

/-- A test case, with its UUID as a text. -/
structure EvalTestCase where
  caseId : String
  expected : Option Value

structure EvalSuite where
  suiteDigest : String
  testCases : List EvalTestCase
  scorers : List ScorerConfig
  thresholds : EvalThresholds

structure EvalCaseResult where
  caseId : String
  score : ℚ
  passed : Bool
  actual : Value

structure EvalRunReport where
  suiteDigest : String
  seed : UInt64
  totalCases : Nat
  passedCases : Nat
  passRate : ℚ
  overallPass : Bool
  caseResults : List EvalCaseResult

inductive EvalError where
  | digestMismatch (expected actual : String)

/-! ## The runner -/

structure DeterministicEvalRunner where
  seed : UInt64

/-- The comparison every usable scorer makes; without an expected output there is nothing to miss. -/
def exactMatch (case : EvalTestCase) (actual : Value) : ℚ :=
  match case.expected with
  | some expected => if Doc.Same Number.Equal expected.doc actual.doc then 1 else 0
  | none => 1

def scoreCase (suite : EvalSuite) (case : EvalTestCase) (actual : Value) : ℚ :=
  if suite.scorers.isEmpty then
    exactMatch case actual
  else
    let scores := suite.scorers.filterMap fun scorer =>
      match scorer.scorerType with
      | .exactMatch => some (exactMatch case actual)
      -- Scorers that are not implemented are skipped.
      | .semanticSimilarity | .toolCallSequence | .custom _ => none
    if scores.isEmpty then exactMatch case actual
    else scores.sum / scores.length

/-- The value of a case without an output. -/
def Value.null : Value where
  doc := .null
  unique := trivial

/-- What the body of the loop makes of a case. -/
def evalCase (suite : EvalSuite) (actualOutputs : Map String Value) (case : EvalTestCase) :
    EvalCaseResult :=
  let actual := (actualOutputs case.caseId).getD .null
  let score := scoreCase suite case actual
  { caseId := case.caseId
    score := score
    passed := if case.expected.isSome then decide (1 ≤ score) else decide (0 < score)
    actual := actual }

/-- The loop over the test cases. -/
def runCases (suite : EvalSuite) (actualOutputs : Map String Value) :
    List EvalTestCase → List EvalCaseResult
  | [] => []
  | case :: rest =>
      let result := evalCase suite actualOutputs case
      if suite.thresholds.failFast && !result.passed then [result]
      else result :: runCases suite actualOutputs rest

/-- The report on the cases that were reached. -/
def reportOn (runner : DeterministicEvalRunner) (suite : EvalSuite) (caseResults : List EvalCaseResult) :
    EvalRunReport :=
  let passedCases := caseResults.countP EvalCaseResult.passed
  let totalCases := caseResults.length
  let passRate : ℚ := if totalCases = 0 then 0 else passedCases / totalCases
  { suiteDigest := suite.suiteDigest
    seed := runner.seed
    totalCases := totalCases
    passedCases := passedCases
    passRate := passRate
    -- A suite without cases validates nothing and does not pass.
    overallPass := decide (0 < totalCases) && decide (suite.thresholds.minPassRate ≤ passRate)
    caseResults := caseResults }

def runWithOutputs (runner : DeterministicEvalRunner) (suite : EvalSuite)
    (actualOutputs : Map String Value) : Except EvalError EvalRunReport :=
  if suite.suiteDigest = "" then
    .error (.digestMismatch "<non-empty>" "<empty>")
  else
    .ok (reportOn runner suite (runCases suite actualOutputs suite.testCases))

/-! ## Cases -/

/-- The same suite with another flag, finalized anew. -/
def EvalSuite.finalizedWith (suite : EvalSuite) (failFast : Bool) (digest : String) : EvalSuite :=
  { suite with
    suiteDigest := digest
    thresholds := { suite.thresholds with failFast := failFast } }

/-- The case passes. -/
def CasePasses (suite : EvalSuite) (actualOutputs : Map String Value) (case : EvalTestCase) : Bool :=
  (evalCase suite actualOutputs case).passed

section Cases

variable (suite : EvalSuite) (actualOutputs : Map String Value)

/-- Scores do not depend on the thresholds. -/
theorem evalCase_finalizedWith (failFast : Bool) (digest : String) :
    evalCase (suite.finalizedWith failFast digest) actualOutputs = evalCase suite actualOutputs := rfl

/-- Every usable scorer gives one score, so their mean is that score. -/
theorem scoreCase_eq_exactMatch (case : EvalTestCase) (actual : Value) :
    scoreCase suite case actual = exactMatch case actual := by
  unfold scoreCase
  split
  · rfl
  dsimp only
  split
  · rfl
  rename_i hscores
  rw [List.isEmpty_iff] at hscores
  set scores := suite.scorers.filterMap _ with hdef
  have hsame : ∀ score ∈ scores, score = exactMatch case actual := by
    intro score hscore
    rw [hdef, List.mem_filterMap] at hscore
    rcases hscore with ⟨scorer, -, hscore⟩
    cases htype : scorer.scorerType with
    | exactMatch =>
        rw [htype] at hscore
        exact (Option.some.inj hscore).symm
    | semanticSimilarity | toolCallSequence | custom =>
        rw [htype] at hscore
        cases hscore
  have hlength : (scores.length : ℚ) ≠ 0 := by
    simpa using hscores
  rw [List.sum_eq_card_nsmul scores _ hsame, nsmul_eq_mul, mul_div_cancel_left₀ _ hlength]

/-- A case passes if it expects nothing or what it expects is there. -/
theorem casePasses_iff (case : EvalTestCase) : CasePasses suite actualOutputs case = true ↔
    ∀ expected ∈ case.expected,
      Doc.Same Number.Equal expected.doc ((actualOutputs case.caseId).getD .null).doc := by
  rw [CasePasses, evalCase, scoreCase_eq_exactMatch, exactMatch]
  cases case.expected with
  | none =>
      simp
  | some expected =>
      by_cases hsame : Doc.Same Number.Equal expected.doc ((actualOutputs case.caseId).getD .null).doc
      · simp [hsame]
      · simp [hsame]

end Cases

/-! ## How far a run gets -/

section Runs

variable (suite : EvalSuite) (actualOutputs : Map String Value) (digest : String)

/-- The cases before the first that fails. -/
def casesBefore : List EvalTestCase :=
  suite.testCases.takeWhile (CasePasses suite actualOutputs)

/-- These and the one that fails. -/
def casesReached : List EvalTestCase :=
  casesBefore suite actualOutputs ++
    (suite.testCases.dropWhile (CasePasses suite actualOutputs)).head?.toList

theorem runCases_false (cases : List EvalTestCase) :
    runCases (suite.finalizedWith false digest) actualOutputs cases =
      cases.map (evalCase suite actualOutputs) := by
  induction cases with
  | nil =>
      rfl
  | cons case rest ih =>
      rw [List.map_cons, ← ih]
      rfl

theorem runCases_true :
    runCases (suite.finalizedWith true digest) actualOutputs suite.testCases =
      (casesReached suite actualOutputs).map (evalCase suite actualOutputs) := by
  unfold casesReached casesBefore
  induction suite.testCases with
  | nil =>
      rfl
  | cons case rest ih =>
      rw [runCases, evalCase_finalizedWith]
      by_cases hpass : CasePasses suite actualOutputs case = true
      · have hpassed : (evalCase suite actualOutputs case).passed = true := hpass
        rw [List.takeWhile_cons_of_pos hpass, List.dropWhile_cons_of_pos hpass, List.cons_append,
          List.map_cons, ← ih, hpassed]
        rfl
      · have hfailed : (evalCase suite actualOutputs case).passed = false := Bool.eq_false_iff.mpr hpass
        rw [List.takeWhile_cons_of_neg hpass, List.dropWhile_cons_of_neg hpass, hfailed]
        rfl

/-- If every case passes, all are reached. -/
theorem casesReached_of_all (h : ∀ case ∈ suite.testCases, CasePasses suite actualOutputs case = true) :
    casesReached suite actualOutputs = suite.testCases := by
  have htake : casesBefore suite actualOutputs = suite.testCases := List.takeWhile_eq_self_iff.mpr h
  have hdrop : suite.testCases.dropWhile (CasePasses suite actualOutputs) = [] :=
    List.dropWhile_eq_nil_iff.mpr h
  rw [casesReached, htake, hdrop, List.head?_nil, Option.toList_none, List.append_nil]

/-- Otherwise one of those that are reached fails, the last. -/
theorem casesReached_of_not_all
    (h : ¬ ∀ case ∈ suite.testCases, CasePasses suite actualOutputs case = true) :
    (casesReached suite actualOutputs).length = (casesBefore suite actualOutputs).length + 1 ∧
      (casesReached suite actualOutputs).countP (CasePasses suite actualOutputs) =
        (casesBefore suite actualOutputs).length := by
  unfold casesReached
  cases hdrop : suite.testCases.dropWhile (CasePasses suite actualOutputs) with
  | nil =>
      exact absurd (List.dropWhile_eq_nil_iff.mp hdrop) h
  | cons case rest =>
      have hfails : CasePasses suite actualOutputs case = false := by
        have hhead := List.head?_dropWhile_not (CasePasses suite actualOutputs) suite.testCases
        rw [hdrop] at hhead
        simpa using hhead
      have hbefore : (casesBefore suite actualOutputs).countP (CasePasses suite actualOutputs) =
          (casesBefore suite actualOutputs).length :=
        List.countP_eq_length.mpr fun case hcase => List.mem_takeWhile_imp hcase
      rw [List.head?_cons, Option.toList_some, List.length_append, List.length_singleton,
        List.countP_append, List.countP_singleton, hbefore, hfails, if_neg Bool.false_ne_true]
      exact ⟨rfl, rfl⟩

end Runs

/-! ## Stopping early -/

/-- The run returns a report in which the suite passes. -/
def SuitePasses (runner : DeterministicEvalRunner) (suite : EvalSuite)
    (actualOutputs : Map String Value) : Prop :=
  ∃ report, runWithOutputs runner suite actualOutputs = .ok report ∧ report.overallPass = true

theorem overallPass_iff (runner : DeterministicEvalRunner) (suite : EvalSuite)
    (caseResults : List EvalCaseResult) :
    (reportOn runner suite caseResults).overallPass = true ↔ caseResults ≠ [] ∧
      suite.thresholds.minPassRate * caseResults.length ≤ caseResults.countP EvalCaseResult.passed := by
  cases caseResults with
  | nil =>
      simp [reportOn]
  | cons result rest =>
      have hpos : (0 : ℚ) < (result :: rest).length := by
        simp [Nat.cast_add_one_pos]
      rw [← le_div_iff₀ hpos]
      simp [reportOn]

section Early

variable (runner : DeterministicEvalRunner) (suite : EvalSuite) (actualOutputs : Map String Value)
variable {digest : String}

theorem countP_passed_map (cases : List EvalTestCase) :
    (cases.map (evalCase suite actualOutputs)).countP EvalCaseResult.passed =
      cases.countP (CasePasses suite actualOutputs) := by
  rw [List.countP_map]
  rfl

/-- A finalized suite passes by the cases that are reached. -/
theorem suitePasses_iff (hdigest : digest ≠ "") (failFast : Bool) {reached : List EvalTestCase}
    (hreached : runCases (suite.finalizedWith failFast digest) actualOutputs suite.testCases =
      reached.map (evalCase suite actualOutputs)) :
    SuitePasses runner (suite.finalizedWith failFast digest) actualOutputs ↔ reached ≠ [] ∧
      suite.thresholds.minPassRate * reached.length ≤
        reached.countP (CasePasses suite actualOutputs) := by
  have hrun : runWithOutputs runner (suite.finalizedWith failFast digest) actualOutputs =
      .ok (reportOn runner (suite.finalizedWith failFast digest)
        (reached.map (evalCase suite actualOutputs))) := by
    rw [← hreached]
    exact if_neg hdigest
  have hmin : (suite.finalizedWith failFast digest).thresholds.minPassRate =
      suite.thresholds.minPassRate := rfl
  rw [SuitePasses, hrun, ← countP_passed_map]
  simp only [Except.ok.injEq, exists_eq_left', overallPass_iff, List.length_map, hmin, ne_eq,
    List.map_eq_nil_iff]

end Early

/-- Stopping at the first failing case makes a suite easier to pass exactly when some case fails, the rate up
to that case is high enough, and the rate of the whole suite is not. -/
theorem failFast_never_easier_iff (runner : DeterministicEvalRunner) (suite : EvalSuite)
    (actualOutputs : Map String Value) (digest digest' : String) (hdigest : digest ≠ "")
    (hdigest' : digest' ≠ "") :
    (SuitePasses runner (suite.finalizedWith true digest) actualOutputs →
        SuitePasses runner (suite.finalizedWith false digest') actualOutputs) ↔
      (∀ case ∈ suite.testCases, CasePasses suite actualOutputs case = true) ∨
        ((casesBefore suite actualOutputs).length : ℚ) <
          suite.thresholds.minPassRate * ((casesBefore suite actualOutputs).length + 1) ∨
        suite.thresholds.minPassRate * suite.testCases.length ≤
          suite.testCases.countP (CasePasses suite actualOutputs) := by
  have htrue := suitePasses_iff runner suite actualOutputs hdigest true
    (runCases_true suite actualOutputs digest)
  have hfalse := suitePasses_iff runner suite actualOutputs hdigest' false
    (runCases_false suite actualOutputs digest' suite.testCases)
  rw [htrue, hfalse]
  by_cases hall : ∀ case ∈ suite.testCases, CasePasses suite actualOutputs case = true
  · rw [casesReached_of_all suite actualOutputs hall]
    exact iff_of_true id (.inl hall)
  · obtain ⟨hlength, hcount⟩ := casesReached_of_not_all suite actualOutputs hall
    -- There is a case that fails, so neither run is empty.
    have hreached : casesReached suite actualOutputs ≠ [] := by
      rw [← List.length_pos_iff, hlength]
      exact Nat.succ_pos _
    have hcases : suite.testCases ≠ [] := by
      rintro hnil
      rw [hnil] at hall
      exact hall (by simp)
    rw [hlength, hcount, Nat.cast_succ, ← not_le]
    tauto

/-! ## Three cases -/

def yes : Value where
  doc := .bool true
  unique := trivial

/-- Half of the cases have to pass; every case expects `true`. -/
def halfSuite (caseIds : List String) : EvalSuite where
  suiteDigest := ""
  testCases := caseIds.map fun caseId => { caseId := caseId, expected := some yes }
  scorers := [{ scorerType := .exactMatch }]
  thresholds := { minPassRate := 1 / 2, failFast := false }

/-- Only the case `a` has an output. -/
def onlyA : Map String Value :=
  Map.insert ∅ "a" yes

/-- The case that passes comes last: no case is reached before a failure, and stopping early keeps the suite
from passing. -/
theorem failFast_never_easier_last :
    casesBefore (halfSuite ["b", "a"]) onlyA = [] ∧
      (SuitePasses ⟨42⟩ ((halfSuite ["b", "a"]).finalizedWith true "digest") onlyA →
        SuitePasses ⟨42⟩ ((halfSuite ["b", "a"]).finalizedWith false "digest'") onlyA) := by
  have hnone : casesBefore (halfSuite ["b", "a"]) onlyA = [] := by
    apply List.length_eq_zero_iff.mp
    decide +kernel
  refine ⟨hnone, ?_⟩
  rw [failFast_never_easier_iff ⟨42⟩ (halfSuite ["b", "a"]) onlyA "digest" "digest'" (by decide) (by decide)]
  right
  left
  decide +kernel

/-- It comes first: the rate is one in two when the run stops, and one in three in the end. -/
theorem failFast_easier_first :
    SuitePasses ⟨42⟩ ((halfSuite ["a", "b", "c"]).finalizedWith true "digest") onlyA ∧
      ¬ SuitePasses ⟨42⟩ ((halfSuite ["a", "b", "c"]).finalizedWith false "digest'") onlyA := by
  rw [suitePasses_iff ⟨42⟩ (halfSuite ["a", "b", "c"]) onlyA (by decide) true
      (runCases_true (halfSuite ["a", "b", "c"]) onlyA "digest"),
    suitePasses_iff ⟨42⟩ (halfSuite ["a", "b", "c"]) onlyA (by decide) false
      (runCases_false (halfSuite ["a", "b", "c"]) onlyA "digest'" _)]
  decide +kernel

end Domain
end Aivcs
