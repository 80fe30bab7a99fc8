import Aivcs.Release.VersionOrder

/-!
# Release.PublishGate — the rules a release has to pass

`evaluate_publish_gate` checks a candidate against the rules of a set, and with `fail_fast` stops at the first
violation.

* `passed_iff_rules` — the gate passes if every rule does, whether it stops early or not;
* `LabelSequence` — labels that are released one after the other;
* `precedes_of_labelSequence`, `semverOrder_and_nodup` — they rise, so that none comes back.
-/

namespace Aivcs
namespace Release

open Lib

/-! ## Candidates and rules -/

structure PublishCandidate where
  versionLabel : Option String
  previousVersion : Option String
  existingVersions : List String
  notes : Option String
  specDigest : String
  deriving DecidableEq

inductive PublishRule where
  | semverFormat
  | versionBump
  | uniqueVersion
  | requireNotes
  | requireSpecDigest
  deriving DecidableEq

structure PublishRuleSet where
  rules : List PublishRule
  failFast : Bool
  deriving DecidableEq

def PublishRuleSet.standard : PublishRuleSet where
  rules := [.semverFormat, .versionBump, .requireSpecDigest]
  failFast := false

def PublishRuleSet.withRule (ruleSet : PublishRuleSet) (rule : PublishRule) : PublishRuleSet :=
  { ruleSet with rules := ruleSet.rules ++ [rule] }

structure PublishViolation where
  rule : PublishRule
  reason : String
  deriving DecidableEq

structure PublishVerdict where
  passed : Bool
  violations : List PublishViolation
  deriving DecidableEq

def PublishVerdict.pass : PublishVerdict :=
  ⟨true, []⟩

def PublishVerdict.fail (violations : List PublishViolation) : PublishVerdict :=
  ⟨false, violations⟩

/-! ## The gate -/

/-- `Some(l) if !l.is_empty()`. -/
def nonEmpty (label : Option String) : Option String :=
  label.filter fun l => l ≠ ""

/-- `s.trim().is_empty()`. -/
def isBlank (s : String) : Bool :=
  (trimBoth isWhitespace s.toList).isEmpty

def checkRule (rule : PublishRule) (candidate : PublishCandidate) : Option PublishViolation :=
  match rule with
  | .semverFormat =>
      match nonEmpty candidate.versionLabel with
      | none => some ⟨rule, "version_label is missing or empty"⟩
      | some label =>
          if (Semver.parse label).isNone then
            some ⟨rule, "'" ++ label ++ "' is not valid semver (expected MAJOR.MINOR.PATCH)"⟩
          else none
  | .versionBump =>
      match nonEmpty candidate.versionLabel, nonEmpty candidate.previousVersion with
      | some currentLabel, some prevLabel =>
          match Semver.parse currentLabel with
          | none =>
              some ⟨rule, "version '" ++ currentLabel ++ "' is not valid semver (cannot compare to previous '" ++
                prevLabel ++ "')"⟩
          | some current =>
              match Semver.parse prevLabel with
              | none =>
                  some ⟨rule, "previous_version '" ++ prevLabel ++ "' is not valid semver (cannot compare to '" ++
                    currentLabel ++ "')"⟩
              | some previous =>
                  if current.cmpVersion previous ≠ .gt then
                    some ⟨rule, "version '" ++ currentLabel ++ "' is not greater than previous '" ++ prevLabel ++
                      "'"⟩
                  else none
      -- Without a label or a predecessor there is nothing to compare.
      | _, _ => none
  | .uniqueVersion =>
      match nonEmpty candidate.versionLabel with
      | none => none
      | some label =>
          if candidate.existingVersions.contains label then
            some ⟨rule, "version '" ++ label ++ "' already exists in history"⟩
          else none
  | .requireNotes =>
      match candidate.notes with
      | some n => if isBlank n then some ⟨rule, "release notes are missing or empty"⟩ else none
      | none => some ⟨rule, "release notes are missing or empty"⟩
  | .requireSpecDigest =>
      if isBlank candidate.specDigest then some ⟨rule, "spec_digest is missing or empty"⟩ else none

/-- The loop over the rules, with the violations so far. -/
def checkRules (failFast : Bool) (candidate : PublishCandidate) :
    List PublishRule → List PublishViolation → PublishVerdict
  | [], violations => if violations.isEmpty then .pass else .fail violations
  | rule :: rules, violations =>
      match checkRule rule candidate with
      | some v =>
          -- The violation that stops the loop is reported with the others.
          if failFast then .fail (violations ++ [v])
          else checkRules failFast candidate rules (violations ++ [v])
      | none => checkRules failFast candidate rules violations

def evaluatePublishGate (ruleSet : PublishRuleSet) (candidate : PublishCandidate) : PublishVerdict :=
  checkRules ruleSet.failFast candidate ruleSet.rules []

/-! ## Verdicts -/

section Verdicts

variable {candidate : PublishCandidate}

/-- A violation names the rule that was checked. -/
theorem rule_of_checkRule {rule : PublishRule} {v : PublishViolation} (h : checkRule rule candidate = some v) :
    v.rule = rule := by
  unfold checkRule at h
  split at h
  all_goals
    repeat' split at h
  all_goals
    cases h <;> rfl

theorem checkRules_passed_iff (failFast : Bool) (rules : List PublishRule) (violations : List PublishViolation) :
    (checkRules failFast candidate rules violations).passed = true ↔
      violations = [] ∧ ∀ rule ∈ rules, checkRule rule candidate = none := by
  induction rules generalizing violations with
  | nil =>
      cases violations <;> simp [checkRules, PublishVerdict.pass, PublishVerdict.fail]
  | cons rule rules ih =>
      rw [checkRules]
      cases hrule : checkRule rule candidate with
      | none =>
          simp [ih, hrule]
      | some v =>
          cases failFast <;> simp [ih, hrule, PublishVerdict.fail]

/-- The gate passes if every rule does. -/
theorem passed_iff_rules (ruleSet : PublishRuleSet) (candidate : PublishCandidate) :
    (evaluatePublishGate ruleSet candidate).passed = true ↔
      ∀ rule ∈ ruleSet.rules, checkRule rule candidate = none := by
  rw [evaluatePublishGate, checkRules_passed_iff]
  exact and_iff_right rfl

/-- The violations that are reported come first among all there are. -/
theorem violations_checkRules (failFast : Bool) (rules : List PublishRule) (violations : List PublishViolation) :
    (checkRules failFast candidate rules violations).violations <+:
      violations ++ rules.filterMap fun rule => checkRule rule candidate := by
  induction rules generalizing violations with
  | nil =>
      cases violations with
      | nil =>
          exact List.prefix_rfl
      | cons v violations =>
          exact List.prefix_append _ _
  | cons rule rules ih =>
      rw [checkRules]
      cases hrule : checkRule rule candidate with
      | none =>
          rw [List.filterMap_cons, hrule]
          exact ih violations
      | some v =>
          have hall : violations ++ (rule :: rules).filterMap (fun rule => checkRule rule candidate) =
              violations ++ [v] ++ rules.filterMap fun rule => checkRule rule candidate := by
            rw [List.filterMap_cons, hrule, List.append_assoc]
            rfl
          rw [hall]
          cases failFast with
          | true =>
              exact List.prefix_append _ _
          | false =>
              exact ih (violations ++ [v])

/-- What the gate reports are violations of rules of the set. -/
theorem mem_violations {ruleSet : PublishRuleSet} {v : PublishViolation}
    (h : v ∈ (evaluatePublishGate ruleSet candidate).violations) :
    v.rule ∈ ruleSet.rules ∧ checkRule v.rule candidate = some v := by
  have hall : v ∈ ruleSet.rules.filterMap fun rule => checkRule rule candidate :=
    (violations_checkRules ruleSet.failFast ruleSet.rules []).subset h
  rcases List.mem_filterMap.mp hall with ⟨rule, hrule, hv⟩
  rw [rule_of_checkRule hv]
  exact ⟨hrule, hv⟩

end Verdicts

/-! ## Releases one after the other -/

/-- Labels that each pass `SemverFormat`, and `VersionBump` against the label before. -/
inductive LabelSequence : Option String → List String → Prop where
  | nil {previous : Option String} : LabelSequence previous []
  | cons {previous : Option String} {label : String} {labels : List String} (candidate : PublishCandidate) :
      candidate.versionLabel = some label → candidate.previousVersion = previous →
      checkRule .semverFormat candidate = none → checkRule .versionBump candidate = none →
      LabelSequence (some label) labels → LabelSequence previous (label :: labels)

section Sequences

variable {candidate : PublishCandidate} {label : String}

theorem ne_empty_of_parse {v : Semver} (h : Semver.parse label = some v) : label ≠ "" := by
  rintro rfl
  cases h

theorem nonEmpty_of_ne {label : String} (h : label ≠ "") : nonEmpty (some label) = some label := by
  simp [nonEmpty, h]

theorem parse_of_semverFormat (hlabel : candidate.versionLabel = some label)
    (h : checkRule .semverFormat candidate = none) : ∃ v, Semver.parse label = some v := by
  rw [checkRule, hlabel] at h
  by_cases hempty : label = ""
  · subst hempty
    cases h
  · simp only [nonEmpty_of_ne hempty] at h
    cases hparse : Semver.parse label with
    | none =>
        rw [hparse] at h
        cases h
    | some v =>
        exact ⟨v, rfl⟩

/-- Both labels are versions, and `VersionBump` has compared them. -/
theorem precedes_of_versionBump {previous : String} {v w : Semver} (hlabel : candidate.versionLabel = some label)
    (hprevious : candidate.previousVersion = some previous) (hv : Semver.parse previous = some v)
    (hw : Semver.parse label = some w) (h : checkRule .versionBump candidate = none) : Precedes v w := by
  rw [checkRule, hlabel, hprevious] at h
  simp only [nonEmpty_of_ne (ne_empty_of_parse hv), nonEmpty_of_ne (ne_empty_of_parse hw), hv, hw] at h
  have hgt : w.cmpVersion v = .gt := by
    by_contra hnot
    rw [if_pos hnot] at h
    cases h
  exact (cmpVersion_eq_lt_iff v w).mp (Std.OrientedCmp.lt_of_gt hgt)

theorem Precedes.trans {u v w : Semver} (huv : Precedes u v) (hvw : Precedes v w) : Precedes u w :=
  (cmpVersion_eq_lt_iff u w).mp (Std.TransCmp.lt_trans ((cmpVersion_eq_lt_iff u v).mpr huv)
    ((cmpVersion_eq_lt_iff v w).mpr hvw))

theorem Precedes.irrefl (v : Semver) : ¬ Precedes v v := by
  intro h
  have hlt := (cmpVersion_eq_lt_iff v v).mpr h
  have hself : v.cmpVersion v = .eq := Std.ReflCmp.compare_self
  rw [hself] at hlt
  cases hlt

/-- Every later label is a version above the one that the sequence starts from. -/
theorem precedes_of_labelSequence {previous : String} {labels : List String} {v : Semver}
    (h : LabelSequence (some previous) labels) (hv : Semver.parse previous = some v) :
    ∀ label ∈ labels, ∃ w, Semver.parse label = some w ∧ Precedes v w := by
  induction labels generalizing previous v with
  | nil =>
      intro label hmem
      cases hmem
  | cons next labels ih =>
      cases h with
      | cons candidate hlabel hprevious hformat hbump hrest =>
          -- The next label is a version above this one, and what follows is above the next.
          rcases parse_of_semverFormat hlabel hformat with ⟨w, hw⟩
          have hvw := precedes_of_versionBump hlabel hprevious hv hw hbump
          intro label hmem
          rcases List.mem_cons.mp hmem with rfl | hmem
          · exact ⟨w, hw, hvw⟩
          · rcases ih hrest hw label hmem with ⟨x, hx, hwx⟩
            exact ⟨x, hx, hvw.trans hwx⟩

theorem LabelSequence.nodup {previous : Option String} {labels : List String} (h : LabelSequence previous labels) :
    labels.Nodup := by
  induction h with
  | nil =>
      exact List.nodup_nil
  | cons candidate hlabel _ hformat _ hrest ih =>
      rcases parse_of_semverFormat hlabel hformat with ⟨v, hv⟩
      refine List.nodup_cons.mpr ⟨fun hmem => ?_, ih⟩
      -- The label would come after itself.
      rcases precedes_of_labelSequence hrest hv _ hmem with ⟨w, hw, hvw⟩
      rw [hv] at hw
      cases hw
      exact Precedes.irrefl v hvw

/-- A gate with both rules, as the standard one, lets a release follow. -/
theorem LabelSequence.cons_of_passed {ruleSet : PublishRuleSet} {previous : Option String} {labels : List String}
    (hrules : .semverFormat ∈ ruleSet.rules ∧ .versionBump ∈ ruleSet.rules)
    (hlabel : candidate.versionLabel = some label) (hprevious : candidate.previousVersion = previous)
    (hpassed : (evaluatePublishGate ruleSet candidate).passed = true) (hrest : LabelSequence (some label) labels) :
    LabelSequence previous (label :: labels) := by
  have hchecks := (passed_iff_rules ruleSet candidate).mp hpassed
  exact .cons candidate hlabel hprevious (hchecks _ hrules.1) (hchecks _ hrules.2) hrest

/-- Versions are ordered as SemVer says, and no label is released twice. -/
theorem semverOrder_and_nodup :
    SemverOrder Semver.cmpVersion ∧
      ∀ (previous : Option String) (labels : List String), LabelSequence previous labels → labels.Nodup :=
  ⟨semverOrder_cmpVersion, fun _ _ h => h.nodup⟩

def releaseOf (previous : Option String) (label : String) : PublishCandidate where
  versionLabel := some label
  previousVersion := previous
  existingVersions := []
  notes := none
  specDigest := "abc"

theorem semverOrder_and_nodup_alphas : ["1.0.0-alpha.9", "1.0.0-alpha.10", "1.0.0"].Nodup :=
  semverOrder_and_nodup.2 none _
    (.cons (releaseOf none _) rfl rfl (by decide) (by decide)
      (.cons (releaseOf (some "1.0.0-alpha.9") _) rfl rfl (by decide) (by decide)
        (.cons (releaseOf (some "1.0.0-alpha.10") _) rfl rfl (by decide) (by decide) .nil)))

end Sequences

end Release
end Aivcs
