import Aivcs.Lib.Text
import Aivcs.State.Types

/-!
# Actions.Admission — what an admitted intent looks like, and its concurrency key

`validate_intent` rejects by default.  It does not look at the characters of a build target, but what it
demands of the other components of a key keeps the separators out of them, so the key of an admitted
intent can be taken apart again (`concurrencyKey_inj`).
-/

namespace Aivcs
namespace Actions

open Lib State

/-! ## Intents: the fields that admission reads or that the key is made of -/

def schemaVersion : String := "aivcs.actions/v1"

inductive IntentKind where
  | ci
  | build
  | reconcile
  deriving DecidableEq

structure CiParameters where
  checkGraphRef : String
  deriving DecidableEq

structure BuildParameters where
  buildIntentId : String
  buildIntentVersion : String
  target : String
  deriving DecidableEq

structure ReconcileParameters where
  changeRef : String
  deriving DecidableEq

inductive IntentParameters where
  | ci (p : CiParameters)
  | build (p : BuildParameters)
  | reconcile (p : ReconcileParameters)
  deriving DecidableEq

namespace IntentParameters

def kind : IntentParameters → IntentKind
  | .ci _ => .ci
  | .build _ => .build
  | .reconcile _ => .reconcile

def target : IntentParameters → Option String
  | .build p => some p.target
  | _ => none

/-- Only builds have a target. -/
theorem target_eq_none {params : IntentParameters} (h : params.kind ≠ .build) :
    params.target = none := by
  cases params with
  | ci => rfl
  | build => exact absurd rfl h
  | reconcile => rfl

theorem exists_target {params : IntentParameters} (h : params.kind = .build) :
    ∃ target, params.target = some target := by
  cases params with
  | ci => cases h
  | build p => exact ⟨p.target, rfl⟩
  | reconcile => cases h

end IntentParameters

structure AutomationIntent where
  schemaVersion : String
  idempotencyKey : String
  requestedAt : Timestamp
  requestedBy : String
  repository : String
  gitRef : String
  kind : IntentKind
  parameters : IntentParameters
  traceId : String
  deriving DecidableEq

def IntentKind.str : IntentKind → String
  | .ci => "ci"
  | .build => "build"
  | .reconcile => "reconcile"

theorem IntentKind.str_injective : Function.Injective IntentKind.str := by
  intro a b h
  cases a <;> cases b <;> first | rfl | exact absurd h (by decide)

def AutomationIntent.concurrencyKey (intent : AutomationIntent) : String :=
  intent.repository ++ "@" ++ intent.gitRef ++ "#" ++ intent.kind.str ++ ":" ++
    intent.parameters.target.getD "-"

/-! ## Admission -/

inductive AdmissionError where
  | unsupportedSchemaVersion (got expected : String)
  | malformedRepository (repository : String)
  | undeclaredRepository (repository : String)
  | mutableRef (gitRef : String)
  | kindParametersMismatch (kind params : String)
  | timestampOutOfWindow (requestedAt now : Timestamp)
  | missingProvenance (field : String)
  | emptyParameter (field : String)
  deriving DecidableEq

/-- Durations in nanoseconds. -/
structure AdmissionConfig where
  allowedRepositories : List String
  maxAge : Int
  maxClockSkew : Int

/-- `AdmissionConfig::new`: fifteen minutes, two minutes. -/
def AdmissionConfig.new (allowedRepositories : List String) : AdmissionConfig :=
  ⟨allowedRepositories, 15 * 60 * 1000000000, 2 * 60 * 1000000000⟩

/-- `s.trim().is_empty()`. -/
def isBlank (s : String) : Bool :=
  (trimBoth isWhitespace s.toList).isEmpty

/-- A commit: 40 or 64 lower-case hexadecimal digits. -/
def isCommitSha (s : String) : Bool :=
  ((utf8 s).length = 40 || (utf8 s).length = 64) && s.toList.all isLowerHex

def isSegmentChar (c : Char) : Bool :=
  ('a' ≤ c && c ≤ 'z') || ('0' ≤ c && c ≤ '9') || c = '.' || c = '_' || c = '-'

/-- One half of `owner/name`; of these characters each is one byte. -/
def isSegment (seg : List Char) : Bool :=
  !seg.isEmpty && seg.length ≤ 100 && seg ≠ ['.'] && seg ≠ ['.', '.'] && seg.all isSegmentChar

def isOwnerName (s : String) : Bool :=
  match s.toList.splitOn '/' with
  | [owner, name] => isSegment owner && isSegment name
  | _ => false

def validateParameters : IntentParameters → Except AdmissionError Unit
  | .ci p =>
      if isBlank p.checkGraphRef then .error (.emptyParameter "ci.check_graph_ref") else .ok ()
  | .build p =>
      if isBlank p.buildIntentId then .error (.emptyParameter "build.build_intent_id")
      else if isBlank p.buildIntentVersion then .error (.emptyParameter "build.build_intent_version")
      else if isBlank p.target then .error (.emptyParameter "build.target")
      else .ok ()
  | .reconcile p =>
      if isBlank p.changeRef then .error (.emptyParameter "reconcile.change_ref") else .ok ()

def validateIntent (intent : AutomationIntent) (now : Timestamp) (cfg : AdmissionConfig) :
    Except AdmissionError Unit :=
  if intent.schemaVersion ≠ schemaVersion then
    .error (.unsupportedSchemaVersion intent.schemaVersion schemaVersion)
  else if isBlank intent.idempotencyKey then .error (.missingProvenance "idempotency_key")
  else if isBlank intent.requestedBy then .error (.missingProvenance "requested_by")
  else if isBlank intent.traceId then .error (.missingProvenance "trace_id")
  else if ¬ isOwnerName intent.repository then .error (.malformedRepository intent.repository)
  else if ¬ cfg.allowedRepositories.any (fun r => r = intent.repository) then
    .error (.undeclaredRepository intent.repository)
  else if ¬ isCommitSha intent.gitRef then .error (.mutableRef intent.gitRef)
  else if intent.kind ≠ intent.parameters.kind then
    .error (.kindParametersMismatch intent.kind.str intent.parameters.kind.str)
  else
    match validateParameters intent.parameters with
    | .error e => .error e
    | .ok () =>
        if now - intent.requestedAt > cfg.maxAge ∨ intent.requestedAt - now > cfg.maxClockSkew then
          .error (.timestampOutOfWindow intent.requestedAt now)
        else
          .ok ()

/-! ## What an admitted intent has passed -/

structure Admitted (intent : AutomationIntent) (now : Timestamp) (cfg : AdmissionConfig) : Prop where
  version : intent.schemaVersion = schemaVersion
  idempotencyKey : isBlank intent.idempotencyKey = false
  requestedBy : isBlank intent.requestedBy = false
  traceId : isBlank intent.traceId = false
  ownerName : isOwnerName intent.repository = true
  declared : intent.repository ∈ cfg.allowedRepositories
  commit : isCommitSha intent.gitRef = true
  kind : intent.kind = intent.parameters.kind
  parameters : validateParameters intent.parameters = .ok ()
  notStale : now - intent.requestedAt ≤ cfg.maxAge
  notAhead : intent.requestedAt - now ≤ cfg.maxClockSkew

/-- A check of the ladder lets through what it does not refuse. -/
theorem check_ok_iff {c : Prop} [Decidable c] {e : AdmissionError} {next : Except AdmissionError Unit} :
    (if c then .error e else next) = .ok () ↔ ¬ c ∧ next = .ok () := by
  simp [ite_eq_iff]

theorem validateIntent_ok_iff {intent : AutomationIntent} {now : Timestamp} {cfg : AdmissionConfig} :
    validateIntent intent now cfg = .ok () ↔ Admitted intent now cfg := by
  unfold validateIntent
  simp only [check_ok_iff]
  constructor
  · rintro ⟨hversion, hidempotency, hrequested, htrace, howner, hdeclared, hcommit, hkind, hrest⟩
    cases hparams : validateParameters intent.parameters with
    | error e =>
        rw [hparams] at hrest
        cases hrest
    | ok _ =>
        rw [hparams] at hrest
        have hwindow := (check_ok_iff.1 hrest).1
        rw [not_or, not_lt, not_lt] at hwindow
        exact
          { version := not_not.1 hversion
            idempotencyKey := by simpa using hidempotency
            requestedBy := by simpa using hrequested
            traceId := by simpa using htrace
            ownerName := not_not.1 howner
            declared := by simpa using hdeclared
            commit := not_not.1 hcommit
            kind := not_not.1 hkind
            parameters := hparams
            notStale := hwindow.1
            notAhead := hwindow.2 }
  · intro h
    have hwindow : ¬ (now - intent.requestedAt > cfg.maxAge ∨
        intent.requestedAt - now > cfg.maxClockSkew) := by
      rw [not_or, not_lt, not_lt]
      exact ⟨h.notStale, h.notAhead⟩
    simp [h.version, h.idempotencyKey, h.requestedBy, h.traceId, h.ownerName, h.declared, h.commit,
      ← h.kind, h.parameters, hwindow]

/-! ## The separators -/

/-- There is no `@` in an admitted repository. -/
theorem at_not_mem_repository {s : String} (h : isOwnerName s = true) : '@' ∉ s.toList := by
  intro hmem
  rcases exists_mem_splitOn hmem (show '@' ≠ '/' by decide) with ⟨piece, hpiece, hat⟩
  unfold isOwnerName at h
  split at h
  · rename_i owner name hsplit
    rw [hsplit] at hpiece
    rw [Bool.and_eq_true] at h
    have hseg : isSegment piece = true := by
      rcases List.mem_cons.1 hpiece with rfl | hpiece
      · exact h.1
      · exact List.mem_singleton.1 hpiece ▸ h.2
    simp only [isSegment, Bool.and_eq_true, List.all_eq_true] at hseg
    exact absurd (hseg.2 '@' hat) (by decide)
  · cases h

/-- There is no `#` in a commit. -/
theorem hash_not_mem_gitRef {s : String} (h : isCommitSha s = true) : '#' ∉ s.toList := by
  intro hmem
  rw [isCommitSha, Bool.and_eq_true, List.all_eq_true] at h
  exact absurd (h.2 '#' hmem) (by decide)

theorem colon_not_mem_kind (kind : IntentKind) : ':' ∉ kind.str.toList := by
  cases kind <;> decide

theorem toList_concurrencyKey (intent : AutomationIntent) :
    intent.concurrencyKey.toList = intent.repository.toList ++ '@' :: (intent.gitRef.toList ++ '#' ::
      (intent.kind.str.toList ++ ':' :: (intent.parameters.target.getD "-").toList)) := by
  simp [AutomationIntent.concurrencyKey]

/-- The key of an admitted intent comes apart at its separators. -/
theorem concurrencyKey_inj {i j : AutomationIntent} (hi : isOwnerName i.repository = true)
    (hj : isOwnerName j.repository = true) (hiRef : isCommitSha i.gitRef = true)
    (hjRef : isCommitSha j.gitRef = true) (h : i.concurrencyKey = j.concurrencyKey) :
    i.repository = j.repository ∧ i.gitRef = j.gitRef ∧ i.kind = j.kind ∧
      i.parameters.target.getD "-" = j.parameters.target.getD "-" := by
  have hlist := congrArg String.toList h
  rw [toList_concurrencyKey, toList_concurrencyKey] at hlist
  rcases append_sep_inj (at_not_mem_repository hi) (at_not_mem_repository hj) hlist with ⟨hrepo, hlist⟩
  rcases append_sep_inj (hash_not_mem_gitRef hiRef) (hash_not_mem_gitRef hjRef) hlist with ⟨href, hlist⟩
  rcases append_sep_inj (colon_not_mem_kind _) (colon_not_mem_kind _) hlist with ⟨hkind, htarget⟩
  exact ⟨String.toList_injective hrepo, String.toList_injective href,
    IntentKind.str_injective (String.toList_injective hkind), String.toList_injective htarget⟩

/-- Two admitted intents have one key exactly when they are the same work. -/
theorem concurrencyKey_eq_iff {i j : AutomationIntent} {now now' : Timestamp}
    {cfg cfg' : AdmissionConfig} (hi : validateIntent i now cfg = .ok ())
    (hj : validateIntent j now' cfg' = .ok ()) :
    i.concurrencyKey = j.concurrencyKey ↔
      i.repository = j.repository ∧ i.gitRef = j.gitRef ∧ i.kind = j.kind ∧
        (i.kind = .build → i.parameters.target = j.parameters.target) := by
  have hi := validateIntent_ok_iff.1 hi
  have hj := validateIntent_ok_iff.1 hj
  constructor
  · intro h
    rcases concurrencyKey_inj hi.ownerName hj.ownerName hi.commit hj.commit h with
      ⟨hrepo, href, hkind, htarget⟩
    refine ⟨hrepo, href, hkind, fun hbuild => ?_⟩
    have hiTarget := IntentParameters.exists_target (hi.kind.symm.trans hbuild)
    have hjTarget := IntentParameters.exists_target ((hj.kind.symm.trans hkind.symm).trans hbuild)
    rcases hiTarget with ⟨t, ht⟩
    rcases hjTarget with ⟨t', ht'⟩
    rw [ht, ht'] at htarget ⊢
    exact congrArg some htarget
  · rintro ⟨hrepo, href, hkind, htarget⟩
    have hsame : i.parameters.target = j.parameters.target := by
      by_cases hbuild : i.kind = .build
      · exact htarget hbuild
      · rw [IntentParameters.target_eq_none (hi.kind ▸ hbuild),
          IntentParameters.target_eq_none (hj.kind ▸ hkind ▸ hbuild)]
    unfold AutomationIntent.concurrencyKey
    rw [hrepo, href, hkind, hsame]

/-- A build of the target that stands for no target, at a commit of forty digits. -/
def dashBuild : AutomationIntent where
  schemaVersion := "aivcs.actions/v1"
  idempotencyKey := "idem-1"
  requestedAt := 0
  requestedBy := "propel"
  repository := "lornu-ai/apps-middle-ware"
  gitRef := "eeeeeeeeeeeeeeeeeeeeeeeeeeeeeeeeeeeeeeee"
  kind := .build
  parameters := .build ⟨"id", "v1", "-"⟩
  traceId := "trace-1"

def ciIntent : AutomationIntent :=
  { dashBuild with kind := .ci, parameters := .ci ⟨"checks/default"⟩ }

theorem concurrencyKey_dashBuild :
    dashBuild.concurrencyKey = ciIntent.concurrencyKey ↔
      dashBuild.repository = ciIntent.repository ∧ dashBuild.gitRef = ciIntent.gitRef ∧
        dashBuild.kind = ciIntent.kind ∧
          (dashBuild.kind = .build → dashBuild.parameters.target = ciIntent.parameters.target) := by
  have hbuild : validateIntent dashBuild 0 (.new ["lornu-ai/apps-middle-ware"]) = .ok () := by
    decide +kernel
  have hci : validateIntent ciIntent 1 (.new ["lornu-ai/apps-middle-ware"]) = .ok () := by
    decide +kernel
  exact concurrencyKey_eq_iff hbuild hci

end Actions
end Aivcs
