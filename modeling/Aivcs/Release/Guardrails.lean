import Aivcs.Lib.Map
import Aivcs.State.Types

/-!
# Release.Guardrails — quality checks before a release

`evaluate_quality_guardrails` folds the reports of the checks into a map by check and walks the required
checks of the profile.  Of several reports of one check the map keeps the last.

* `passed_iff` — the verdict in terms of the last report of every required check;
* `Unhidden` — no failing report is overlooked, and the order of the reports does not matter;
* `unhidden_iff` — for which inputs that is so.
-/

namespace Aivcs
namespace Release

open Lib
open State (Timestamp)

/-! ## Checks and verdicts -/

inductive QualityCheck where
  | fmt
  | lint
  | test
  | verification
  deriving DecidableEq

inductive QualitySeverity where
  | info
  | low
  | medium
  | high
  | critical
  deriving DecidableEq

/-- The derived order: that of the constructors. -/
def QualitySeverity.rank : QualitySeverity → Nat
  | .info => 0
  | .low => 1
  | .medium => 2
  | .high => 3
  | .critical => 4

instance : LE QualitySeverity where
  le a b := a.rank ≤ b.rank

instance (a b : QualitySeverity) : Decidable (a ≤ b) :=
  inferInstanceAs (Decidable (a.rank ≤ b.rank))

structure CheckFinding where
  severity : QualitySeverity
  message : String
  filePath : Option String
  line : Option UInt32
  deriving DecidableEq

structure CheckResult where
  check : QualityCheck
  passed : Bool
  findings : List CheckFinding
  deriving DecidableEq

inductive ReleaseAction where
  | promote
  | publish
  deriving DecidableEq

def ReleaseAction.isHighRisk : ReleaseAction → Bool
  | .promote => false
  | .publish => true

structure GuardrailPolicyProfile where
  requiredChecks : List QualityCheck
  blockOnSeverity : QualitySeverity

namespace GuardrailPolicyProfile

def standard : GuardrailPolicyProfile :=
  { requiredChecks := [.fmt, .lint, .test], blockOnSeverity := .high }

def strict : GuardrailPolicyProfile :=
  { requiredChecks := [.fmt, .lint, .test, .verification], blockOnSeverity := .medium }

end GuardrailPolicyProfile

structure GuardrailCoverage where
  requiredChecks : Nat
  executedRequiredChecks : Nat
  passedRequiredChecks : Nat

structure GuardrailVerdict where
  passed : Bool
  blockedChecks : List QualityCheck
  missingRequiredChecks : List QualityCheck
  blockingFindings : List CheckFinding
  requiresApproval : Bool
  coverage : GuardrailCoverage
  evaluatedAt : Timestamp

/-! ## Evaluation -/

/-- What the loop over the required checks has collected. -/
structure Scan where
  blockedChecks : List QualityCheck
  missingRequiredChecks : List QualityCheck
  blockingFindings : List CheckFinding
  executedRequiredChecks : Nat
  passedRequiredChecks : Nat

def Scan.init : Scan :=
  ⟨[], [], [], 0, 0⟩

def Scan.require (profile : GuardrailPolicyProfile) (byCheck : Map QualityCheck CheckResult) (scan : Scan)
    (required : QualityCheck) : Scan :=
  match byCheck required with
  | none => { scan with missingRequiredChecks := scan.missingRequiredChecks ++ [required] }
  | some result =>
      { scan with
        executedRequiredChecks := scan.executedRequiredChecks + 1
        passedRequiredChecks :=
          if result.passed then scan.passedRequiredChecks + 1 else scan.passedRequiredChecks
        blockedChecks :=
          if result.passed then scan.blockedChecks else scan.blockedChecks ++ [required]
        -- The findings of a check that passed block as well.
        blockingFindings := scan.blockingFindings ++
          result.findings.filter fun f => profile.blockOnSeverity ≤ f.severity }

/-- The reports by check: a later report takes the place of an earlier one. -/
def byCheck (results : List CheckResult) : Map QualityCheck CheckResult :=
  results.foldl (fun m r => m.insert r.check r) ∅

/-- `evaluate_quality_guardrails`, at the time `now`. -/
def evaluateQualityGuardrails (profile : GuardrailPolicyProfile) (results : List CheckResult)
    (action : ReleaseAction) (explicitApproval : Bool) (now : Timestamp) : GuardrailVerdict :=
  let scan := profile.requiredChecks.foldl (Scan.require profile (byCheck results)) .init
  let blockedChecks := scan.blockedChecks.eraseDups
  let requiresApproval := action.isHighRisk && !explicitApproval
  { passed := blockedChecks.isEmpty && scan.missingRequiredChecks.isEmpty &&
      scan.blockingFindings.isEmpty && !requiresApproval
    blockedChecks := blockedChecks
    missingRequiredChecks := scan.missingRequiredChecks
    blockingFindings := scan.blockingFindings
    requiresApproval := requiresApproval
    coverage :=
      { requiredChecks := profile.requiredChecks.length
        executedRequiredChecks := scan.executedRequiredChecks
        passedRequiredChecks := scan.passedRequiredChecks }
    evaluatedAt := now }

def releaseBlockReason (verdict : GuardrailVerdict) : Option String :=
  if verdict.passed then none
  else if verdict.requiresApproval then some "high-risk action requires explicit approval"
  else if !verdict.missingRequiredChecks.isEmpty then some "required checks missing"
  else if !verdict.blockedChecks.isEmpty then some "required checks failed"
  else if !verdict.blockingFindings.isEmpty then some "blocking findings present"
  else some "quality guardrail blocked"

/-! ## When the verdict passes -/

/-- The report has nothing in it that blocks a release. -/
def Clean (profile : GuardrailPolicyProfile) (r : CheckResult) : Prop :=
  r.passed = true ∧ ∀ f ∈ r.findings, ¬ profile.blockOnSeverity ≤ f.severity

instance (profile : GuardrailPolicyProfile) (r : CheckResult) : Decidable (Clean profile r) :=
  inferInstanceAs (Decidable (_ ∧ _))

section Verdict

variable (profile : GuardrailPolicyProfile)

/-- One required check leaves nothing behind exactly when it has a clean report. -/
theorem Scan.require_clear_iff (m : Map QualityCheck CheckResult) (scan : Scan) (c : QualityCheck) :
    ((scan.require profile m c).blockedChecks = [] ∧ (scan.require profile m c).missingRequiredChecks = [] ∧
      (scan.require profile m c).blockingFindings = []) ↔
    (scan.blockedChecks = [] ∧ scan.missingRequiredChecks = [] ∧ scan.blockingFindings = []) ∧
      ∃ r, m c = some r ∧ Clean profile r := by
  unfold Scan.require Clean
  cases m c with
  | none =>
      simp
  | some r =>
      cases hpassed : r.passed with
      | false =>
          simp [hpassed]
      | true =>
          simp [hpassed, List.filter_eq_nil_iff, and_assoc]

theorem foldl_require_clear_iff (m : Map QualityCheck CheckResult) (checks : List QualityCheck) (scan : Scan) :
    ((checks.foldl (Scan.require profile m) scan).blockedChecks = [] ∧
      (checks.foldl (Scan.require profile m) scan).missingRequiredChecks = [] ∧
      (checks.foldl (Scan.require profile m) scan).blockingFindings = []) ↔
    (scan.blockedChecks = [] ∧ scan.missingRequiredChecks = [] ∧ scan.blockingFindings = []) ∧
      ∀ c ∈ checks, ∃ r, m c = some r ∧ Clean profile r := by
  induction checks generalizing scan with
  | nil =>
      simp
  | cons c checks ih =>
      rw [List.foldl_cons, ih, Scan.require_clear_iff, List.forall_mem_cons, and_assoc]

/-- The last report of a check. -/
def lastReport (results : List CheckResult) (c : QualityCheck) : Option CheckResult :=
  (results.filter fun r => r.check = c).getLast?

theorem byCheck_apply (results : List CheckResult) (c : QualityCheck) :
    byCheck results c = lastReport results c := by
  rw [byCheck, Map.foldl_insert_apply, Map.empty_apply, Option.or_none, lastReport]

theorem mem_of_lastReport {results : List CheckResult} {c : QualityCheck} {r : CheckResult}
    (h : lastReport results c = some r) : r ∈ results ∧ r.check = c := by
  have hmem := List.mem_of_getLast? h
  rw [List.mem_filter, decide_eq_true_eq] at hmem
  exact hmem

theorem eraseDups_eq_nil_iff (checks : List QualityCheck) : checks.eraseDups = [] ↔ checks = [] := by
  cases checks with
  | nil =>
      rfl
  | cons c checks =>
      simp [List.eraseDups_cons]

/-- A release passes when the last report of every required check is clean and a publish is approved. -/
theorem passed_iff (results : List CheckResult) (action : ReleaseAction) (explicitApproval : Bool)
    (now : Timestamp) :
    (evaluateQualityGuardrails profile results action explicitApproval now).passed = true ↔
      (∀ c ∈ profile.requiredChecks, ∃ r, lastReport results c = some r ∧ Clean profile r) ∧
        (action = .publish → explicitApproval = true) := by
  have hscan := foldl_require_clear_iff profile (byCheck results) profile.requiredChecks .init
  have hinit : Scan.init.blockedChecks = [] ∧ Scan.init.missingRequiredChecks = [] ∧
      Scan.init.blockingFindings = [] := ⟨rfl, rfl, rfl⟩
  have happroval : (!(action.isHighRisk && !explicitApproval)) = true ↔
      (action = .publish → explicitApproval = true) := by
    cases action <;> cases explicitApproval <;> decide
  simp only [hinit, and_self, true_and, byCheck_apply] at hscan
  simp only [evaluateQualityGuardrails, Bool.and_eq_true, List.isEmpty_iff, eraseDups_eq_nil_iff,
    happroval, and_assoc]
  rw [← hscan, and_assoc, and_assoc]

end Verdict

/-! ## Nothing is hidden -/

/-- A passing verdict has looked at every report: those of the required checks are clean, each of these is
reported, a publish is approved; and the order of the reports makes no difference. -/
structure Unhidden (profile : GuardrailPolicyProfile) (results : List CheckResult) (action : ReleaseAction)
    (explicitApproval : Bool) (now : Timestamp) : Prop where
  complete : (evaluateQualityGuardrails profile results action explicitApproval now).passed = true →
    (∀ r ∈ results, r.check ∈ profile.requiredChecks → Clean profile r) ∧
      (∀ c ∈ profile.requiredChecks, ∃ r ∈ results, r.check = c) ∧
      (action = .publish → explicitApproval = true)
  order : ∀ results', results'.Perm results →
    (evaluateQualityGuardrails profile results' action explicitApproval now).passed =
      (evaluateQualityGuardrails profile results action explicitApproval now).passed

/-- Every required check has a clean report. -/
def HasClean (profile : GuardrailPolicyProfile) (results : List CheckResult) : Prop :=
  ∀ c ∈ profile.requiredChecks, ∃ r ∈ results, r.check = c ∧ Clean profile r

/-- The reports of one required check agree on whether there is anything that blocks. -/
def ReportsAgree (profile : GuardrailPolicyProfile) (results : List CheckResult) : Prop :=
  ∀ c ∈ profile.requiredChecks, ∀ r ∈ results, ∀ r' ∈ results, r.check = c → r'.check = c →
    (Clean profile r ↔ Clean profile r')

section Unhidden

variable {profile : GuardrailPolicyProfile} {results : List CheckResult} {action : ReleaseAction}
variable {explicitApproval : Bool} {now : Timestamp}

/-- The last report is one of the reports. -/
theorem hasClean_of_passed
    (h : (evaluateQualityGuardrails profile results action explicitApproval now).passed = true) :
    HasClean profile results := by
  intro c hc
  rcases ((passed_iff profile results action explicitApproval now).mp h).1 c hc with ⟨r, hlast, hclean⟩
  rcases mem_of_lastReport hlast with ⟨hr, hcheck⟩
  exact ⟨r, hr, hcheck, hclean⟩

/-- Where the reports agree, any of them stands for the last one. -/
theorem passed_iff_of_reportsAgree (hagree : ReportsAgree profile results) :
    (evaluateQualityGuardrails profile results action explicitApproval now).passed = true ↔
      HasClean profile results ∧ (action = .publish → explicitApproval = true) := by
  rw [passed_iff]
  refine and_congr_left fun _ => ⟨fun h c hc => ?_, fun h c hc => ?_⟩
  · rcases h c hc with ⟨r, hlast, hclean⟩
    rcases mem_of_lastReport hlast with ⟨hr, hcheck⟩
    exact ⟨r, hr, hcheck, hclean⟩
  · rcases h c hc with ⟨r, hr, hcheck, hclean⟩
    have hne : results.filter (fun r => r.check = c) ≠ [] :=
      List.ne_nil_of_mem (List.mem_filter.mpr ⟨hr, decide_eq_true hcheck⟩)
    have hlast : lastReport results c = some (List.getLast _ hne) := List.getLast?_eq_some_getLast hne
    rcases mem_of_lastReport hlast with ⟨hr', hcheck'⟩
    exact ⟨_, hlast, (hagree c hc r hr _ hr' hcheck hcheck').mp hclean⟩

/-- The reports with the clean ones last. -/
def cleanLast (profile : GuardrailPolicyProfile) (results : List CheckResult) : List CheckResult :=
  results.filter (fun r => !decide (Clean profile r)) ++ results.filter fun r => decide (Clean profile r)

theorem cleanLast_perm (profile : GuardrailPolicyProfile) (results : List CheckResult) :
    (cleanLast profile results).Perm results := by
  have hperm := List.filter_append_perm (fun r => decide (Clean profile r)) results
  exact List.perm_append_comm.trans hperm

/-- In that order one clean report of each required check is enough. -/
theorem passed_cleanLast (now : Timestamp) (h : HasClean profile results)
    (happroval : action = .publish → explicitApproval = true) :
    (evaluateQualityGuardrails profile (cleanLast profile results) action explicitApproval now).passed =
      true := by
  rw [passed_iff]
  refine ⟨fun c hc => ?_, happroval⟩
  rcases h c hc with ⟨r, hr, hcheck, hclean⟩
  have hmem : r ∈ (results.filter fun r => decide (Clean profile r)).filter fun r => r.check = c := by
    simp [hr, hcheck, hclean]
  have hne := List.ne_nil_of_mem hmem
  refine ⟨List.getLast _ hne, ?_, ?_⟩
  · rw [lastReport, cleanLast, List.filter_append, List.getLast?_append,
      List.getLast?_eq_some_getLast hne, Option.some_or]
  · have hlast := (List.mem_filter.mp (List.getLast_mem hne)).1
    simpa using (List.mem_filter.mp hlast).2

theorem HasClean.perm {results' : List CheckResult} (h : HasClean profile results)
    (hperm : results'.Perm results) : HasClean profile results' := by
  intro c hc
  rcases h c hc with ⟨r, hr, hcheck⟩
  exact ⟨r, hperm.mem_iff.mpr hr, hcheck⟩

theorem ReportsAgree.perm {results' : List CheckResult} (h : ReportsAgree profile results)
    (hperm : results'.Perm results) : ReportsAgree profile results' := by
  intro c hc r hr r' hr'
  exact h c hc r (hperm.mem_iff.mp hr) r' (hperm.mem_iff.mp hr')

theorem unhidden_of_reportsAgree (now : Timestamp) (hagree : ReportsAgree profile results) :
    Unhidden profile results action explicitApproval now := by
  refine ⟨fun hpassed => ?_, fun results' hperm => ?_⟩
  · rcases (passed_iff_of_reportsAgree hagree).mp hpassed with ⟨hclean, happroval⟩
    refine ⟨fun r hr hcheck => ?_, fun c hc => ?_, happroval⟩
    · rcases hclean r.check hcheck with ⟨r', hr', hcheck', hclean'⟩
      exact (hagree _ hcheck r hr r' hr' rfl hcheck').mpr hclean'
    · rcases hclean c hc with ⟨r, hr, hcheck, -⟩
      exact ⟨r, hr, hcheck⟩
  · rw [Bool.eq_iff_iff, passed_iff_of_reportsAgree (hagree.perm hperm), passed_iff_of_reportsAgree hagree]
    exact and_congr_left fun _ => ⟨fun h => h.perm hperm.symm, fun h => h.perm hperm⟩

/-- What blocks in any order blocks in every order. -/
theorem unhidden_of_blocked (now : Timestamp)
    (h : ¬ HasClean profile results ∨ ¬ (action = .publish → explicitApproval = true)) :
    Unhidden profile results action explicitApproval now := by
  have hblocked : ∀ results', results'.Perm results →
      (evaluateQualityGuardrails profile results' action explicitApproval now).passed = false := by
    intro results' hperm
    rw [← Bool.not_eq_true]
    intro hpassed
    rcases h with hclean | happroval
    · exact hclean ((hasClean_of_passed hpassed).perm hperm.symm)
    · exact happroval ((passed_iff _ _ _ _ _).mp hpassed).2
  refine ⟨fun hpassed => ?_, fun results' hperm => ?_⟩
  · rw [hblocked results (List.Perm.refl _)] at hpassed
    cases hpassed
  · rw [hblocked results' hperm, hblocked results (List.Perm.refl _)]

end Unhidden

/-- Nothing is hidden exactly when the reports of each required check agree, or the release is blocked in any
order: some required check has no clean report, or an approval is missing. -/
theorem unhidden_iff (profile : GuardrailPolicyProfile) (results : List CheckResult)
    (action : ReleaseAction) (explicitApproval : Bool) (now : Timestamp) :
    Unhidden profile results action explicitApproval now ↔
      ReportsAgree profile results ∨
        (∃ c ∈ profile.requiredChecks, ∀ r ∈ results, r.check = c → ¬ Clean profile r) ∨
        (action = .publish ∧ explicitApproval = false) := by
  have hnoClean : (∃ c ∈ profile.requiredChecks, ∀ r ∈ results, r.check = c → ¬ Clean profile r) ↔
      ¬ HasClean profile results := by
    simp only [HasClean, not_forall, not_exists, not_and, exists_prop]
  have hnoApproval : (action = .publish ∧ explicitApproval = false) ↔
      ¬ (action = .publish → explicitApproval = true) := by
    rw [Classical.not_imp, Bool.not_eq_true]
  rw [hnoClean, hnoApproval]
  constructor
  · intro h
    by_cases hclean : HasClean profile results
    · by_cases happroval : action = .publish → explicitApproval = true
      · -- With the clean reports last the release passes, so it passes as it is.
        have hlast := passed_cleanLast now hclean happroval
        rw [h.order _ (cleanLast_perm profile results)] at hlast
        have hall := (h.complete hlast).1
        refine .inl fun c hc r hr r' hr' hcheck hcheck' => ?_
        exact iff_of_true (hall r hr (hcheck ▸ hc)) (hall r' hr' (hcheck' ▸ hc))
      · exact .inr (.inr happroval)
    · exact .inr (.inl hclean)
  · rintro (hagree | hblock)
    · exact unhidden_of_reportsAgree now hagree
    · exact unhidden_of_blocked now hblock

/-- A failing report of the formatter, followed by reports that pass. -/
def failureFirst : List CheckResult :=
  [{ check := .fmt, passed := false, findings := [] }, { check := .fmt, passed := true, findings := [] },
    { check := .lint, passed := true, findings := [] }, { check := .test, passed := true, findings := [] }]

/-- The release passes, and would not if the two reports of the formatter were the other way round. -/
theorem not_unhidden_failureFirst :
    (evaluateQualityGuardrails .standard failureFirst .promote false 0).passed = true ∧
      ¬ Unhidden .standard failureFirst .promote false 0 := by
  have hpassed : (evaluateQualityGuardrails .standard failureFirst .promote false 0).passed = true := by
    decide
  refine ⟨hpassed, fun h => ?_⟩
  have hclean := (h.complete hpassed).1 { check := .fmt, passed := false, findings := [] } (by decide)
    (by decide)
  exact absurd hclean (by decide)

/-! ## The reason for a block -/

/-- Every verdict that blocks names what blocks: the last reason of the list is never given. -/
theorem releaseBlockReason_ne_fallback (profile : GuardrailPolicyProfile) (results : List CheckResult)
    (action : ReleaseAction) (explicitApproval : Bool) (now : Timestamp) :
    releaseBlockReason (evaluateQualityGuardrails profile results action explicitApproval now) ≠
      some "quality guardrail blocked" := by
  have hpassed : ∀ v : GuardrailVerdict, v = evaluateQualityGuardrails profile results action explicitApproval now →
      v.passed = (v.blockedChecks.isEmpty && v.missingRequiredChecks.isEmpty &&
        v.blockingFindings.isEmpty && !v.requiresApproval) := by
    rintro v rfl
    rfl
  generalize evaluateQualityGuardrails profile results action explicitApproval now = v at hpassed
  rw [releaseBlockReason, hpassed v rfl]
  cases v.blockedChecks.isEmpty <;> cases v.missingRequiredChecks.isEmpty <;>
    cases v.blockingFindings.isEmpty <;> cases v.requiresApproval <;> decide

end Release
end Aivcs
