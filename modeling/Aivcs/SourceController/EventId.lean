import Aivcs.Lib.Text
import Aivcs.SourceController.Reconcile

/-!
# SourceController.EventId — which head advances share an idempotency key

An event id is `repo@sha` with every character the receiver does not take replaced by a dash.  A commit id
has no dash, so it can be read back from the id; the repository cannot, since `/`, `.` and `-` all end as
a dash.

* `eventId_eq_iff` — the ids of two head advances agree exactly when the commit ids do and the repositories
  differ in those three characters only;
* `eventId_separates_iff` — when the id separates two head advances as `dedup_key` does.
-/

namespace Aivcs
namespace SourceController

open Aivcs.Lib

/-- The source-agnostic key `repo@revision`. -/
def MergeEventPayload.dedupKey (payload : MergeEventPayload) : String :=
  payload.repository ++ "@" ++ payload.commitSha

/-- What an event is about. -/
@[ext]
structure HeadAdvance where
  organization : String
  repo : String
  commitSha : String
  deriving DecidableEq

namespace HeadAdvance

def payload (a : HeadAdvance) : Except String MergeEventPayload :=
  MergeEventPayload.fromMainAdvance a.organization a.repo a.commitSha

/-- The payload with its id. -/
def payloadOf (a : HeadAdvance) (eventId : String) : MergeEventPayload :=
  { eventId := eventId
    repository := a.organization ++ "/" ++ a.repo
    targetBranch := defaultBranch
    commitSha := a.commitSha
    pullRequest := "aivcs@" ++ a.commitSha
    merged := true
    approved := true
    checksPassed := true
    flake := ".#container"
    image := none }

/-- The characters of organisation and repository names. -/
def NameChar (c : Char) : Prop :=
  c.isAlphanum ∨ c = '-' ∨ c = '_' ∨ c = '.'

/-- Lower-case hexadecimal. -/
def HexChar (c : Char) : Prop :=
  c.isDigit ∨ ('a' ≤ c ∧ c ≤ 'f')

instance : DecidablePred NameChar := fun _ => inferInstanceAs (Decidable (_ ∨ _))

instance : DecidablePred HexChar := fun _ => inferInstanceAs (Decidable (_ ∨ _))

structure Valid (a : HeadAdvance) : Prop where
  organization_ne : a.organization ≠ ""
  organization : ∀ c ∈ a.organization.toList, NameChar c
  repo_ne : a.repo ≠ ""
  repo : ∀ c ∈ a.repo.toList, NameChar c
  commitSha : ∀ c ∈ a.commitSha.toList, HexChar c

def repository (a : HeadAdvance) : List Char :=
  a.organization.toList ++ '/' :: a.repo.toList

/-- The characters that end as a dash. -/
def dashed : List Char :=
  ['-', '/', '.']

/-- The repositories are spelled alike, but for characters that end as a dash. -/
def Blurred (a a' : HeadAdvance) : Prop :=
  List.Forall₂ (fun c d => c = d ∨ (c ∈ dashed ∧ d ∈ dashed)) a.repository a'.repository

theorem blurred_refl (a : HeadAdvance) : Blurred a a :=
  List.forall₂_same.2 fun _ _ => Or.inl rfl

/-! ## One character -/

/-- The replacement `event_id_for` makes. -/
def sanitizeChar (c : Char) : Char :=
  if c.isAlphanum || c = '-' || c = '_' then c else '-'

section Chars

variable {c d : Char}

theorem HexChar.isAlphanum (h : HexChar c) : c.isAlphanum = true := by
  rcases h with hdigit | ⟨hlo, hhi⟩
  · simp [Char.isAlphanum, hdigit]
  · have hlower : c.isLower = true :=
      Bool.and_eq_true_iff.2 ⟨decide_eq_true hlo, decide_eq_true (UInt32.le_trans hhi (by decide))⟩
    have halpha : c.isAlpha = true := Bool.or_eq_true_iff.2 (.inr hlower)
    simp [Char.isAlphanum, halpha]

theorem HexChar.sanitizeChar_eq (h : HexChar c) : sanitizeChar c = c := by
  simp [sanitizeChar, h.isAlphanum]

theorem HexChar.ne_dash (h : HexChar c) : c ≠ '-' := by
  rintro rfl
  exact absurd h.isAlphanum (by decide)

theorem HexChar.ne_at (h : HexChar c) : c ≠ '@' := by
  rintro rfl
  exact absurd h.isAlphanum (by decide)

theorem NameChar.ne_slash (h : NameChar c) : c ≠ '/' := by
  rintro rfl
  exact absurd h (by unfold NameChar; decide)

theorem NameChar.ne_at (h : NameChar c) : c ≠ '@' := by
  rintro rfl
  exact absurd h (by unfold NameChar; decide)

theorem sanitizeChar_of_mem_dashed (h : c ∈ dashed) : sanitizeChar c = '-' := by
  simp only [dashed, List.mem_cons, List.not_mem_nil, or_false] at h
  rcases h with rfl | rfl | rfl <;> decide

theorem sanitizeChar_of_notMem_dashed (hc : NameChar c ∨ c = '/') (h : c ∉ dashed) :
    sanitizeChar c = c := by
  simp only [dashed, List.mem_cons, List.not_mem_nil, or_false, not_or] at h
  unfold NameChar at hc
  rw [sanitizeChar, if_pos]
  simp only [Bool.or_eq_true, decide_eq_true_eq]
  tauto

/-- Two characters of a repository become the same exactly when they are, or both become a dash. -/
theorem sanitizeChar_eq_iff (hc : NameChar c ∨ c = '/') (hd : NameChar d ∨ d = '/') :
    sanitizeChar c = sanitizeChar d ↔ c = d ∨ (c ∈ dashed ∧ d ∈ dashed) := by
  have hdash : '-' ∈ dashed := List.mem_cons_self
  -- A character that is kept is no dash, so it never becomes what a dashed one does.
  by_cases hcd : c ∈ dashed
  · rw [sanitizeChar_of_mem_dashed hcd]
    by_cases hdd : d ∈ dashed
    · simp [sanitizeChar_of_mem_dashed hdd, hcd, hdd]
    · rw [sanitizeChar_of_notMem_dashed hd hdd]
      refine iff_of_false ?_ ?_
      · rintro rfl
        exact hdd hdash
      · rintro (rfl | ⟨_, hdd'⟩)
        · exact hdd hcd
        · exact hdd hdd'
  · rw [sanitizeChar_of_notMem_dashed hc hcd]
    by_cases hdd : d ∈ dashed
    · rw [sanitizeChar_of_mem_dashed hdd]
      refine iff_of_false ?_ ?_
      · rintro rfl
        exact hcd hdash
      · rintro (rfl | ⟨hcd', _⟩)
        · exact hcd hdd
        · exact hcd hcd'
    · rw [sanitizeChar_of_notMem_dashed hd hdd]
      tauto

end Chars

/-! ## Whole ids -/

section Ids

variable {a a' : HeadAdvance} {p p' : MergeEventPayload}

theorem payload_eq_ok_iff : a.payload = .ok p ↔
    ∃ eventId, eventIdFor (a.organization ++ "/" ++ a.repo) a.commitSha = .ok eventId ∧
      p = a.payloadOf eventId := by
  unfold payload MergeEventPayload.fromMainAdvance
  cases hid : eventIdFor (a.organization ++ "/" ++ a.repo) a.commitSha with
  | error e =>
      simp [hid]
  | ok eventId =>
      simp [hid, payloadOf, eq_comm]

theorem payload_spec (h : a.payload = .ok p) :
    p.eventId.toList = (a.repository ++ '@' :: a.commitSha.toList).map sanitizeChar ∧
      p.dedupKey.toList = a.repository ++ '@' :: a.commitSha.toList := by
  rcases payload_eq_ok_iff.1 h with ⟨eventId, hid, rfl⟩
  have hraw : (a.organization ++ "/" ++ a.repo ++ "@" ++ a.commitSha).toList =
      a.repository ++ '@' :: a.commitSha.toList := by
    simp [repository, String.toList_append]
  refine ⟨?_, hraw⟩
  simp only [eventIdFor, hraw, Except.ok.injEq, ite_eq_iff, reduceCtorEq, and_false,
    false_or] at hid
  rw [payloadOf, ← hid.2, String.toList_ofList]
  rfl

theorem Valid.repository_chars (h : a.Valid) : ∀ c ∈ a.repository, NameChar c ∨ c = '/' := by
  intro c hc
  rcases List.mem_append.1 hc with horg | hrest
  · exact Or.inl (h.organization c horg)
  · rcases List.mem_cons.1 hrest with rfl | hrepo
    · exact Or.inr rfl
    · exact Or.inl (h.repo c hrepo)

theorem map_sanitizeChar_eq_iff {l l' : List Char} (hl : ∀ c ∈ l, NameChar c ∨ c = '/')
    (hl' : ∀ c ∈ l', NameChar c ∨ c = '/') :
    l.map sanitizeChar = l'.map sanitizeChar ↔
      List.Forall₂ (fun c d => c = d ∨ (c ∈ dashed ∧ d ∈ dashed)) l l' := by
  induction l generalizing l' with
  | nil =>
      cases l' <;> simp
  | cons c l ih =>
      cases l' with
      | nil =>
          simp
      | cons d l' =>
          rw [List.forall_mem_cons] at hl hl'
          rw [List.map_cons, List.map_cons, List.cons.injEq, List.forall₂_cons,
            sanitizeChar_eq_iff hl.1 hl'.1, ih hl.2 hl'.2]

theorem Valid.map_commitSha (h : a.Valid) :
    a.commitSha.toList.map sanitizeChar = a.commitSha.toList := by
  calc
    a.commitSha.toList.map sanitizeChar = a.commitSha.toList.map id :=
      List.map_congr_left fun c hc => (h.commitSha c hc).sanitizeChar_eq
    _ = a.commitSha.toList := List.map_id _

/-- The ids agree exactly when the commit ids do and the repositories are spelled alike. -/
theorem eventId_eq_iff (ha : a.Valid) (ha' : a'.Valid) (hp : a.payload = .ok p)
    (hp' : a'.payload = .ok p') :
    p.eventId = p'.eventId ↔ a.commitSha = a'.commitSha ∧ Blurred a a' := by
  have hdash {b : HeadAdvance} (hb : b.Valid) : '-' ∉ b.commitSha.toList := by
    intro hmem
    exact (hb.commitSha _ hmem).ne_dash rfl
  have hid {b : HeadAdvance} {q : MergeEventPayload} (hb : b.Valid) (hq : b.payload = .ok q) :
      q.eventId.toList = b.repository.map sanitizeChar ++ '-' :: b.commitSha.toList := by
    rw [(payload_spec hq).1, List.map_append, List.map_cons, hb.map_commitSha]
    rfl
  rw [← String.toList_inj, hid ha hp, hid ha' hp', Blurred,
    ← map_sanitizeChar_eq_iff ha.repository_chars ha'.repository_chars, ← String.toList_inj]
  constructor
  · intro h
    -- The last dash of the id is the one before the commit id.
    exact (append_sep_inj_last (hdash ha) (hdash ha') h).symm
  · rintro ⟨hsha, hrepository⟩
    rw [hsha, hrepository]

theorem dedupKey_eq_iff (ha : a.Valid) (ha' : a'.Valid) (hp : a.payload = .ok p)
    (hp' : a'.payload = .ok p') : p.dedupKey = p'.dedupKey ↔ a = a' := by
  have hslash {b : HeadAdvance} (hb : b.Valid) : '/' ∉ b.organization.toList := by
    intro hmem
    exact (hb.organization _ hmem).ne_slash rfl
  have hat {b : HeadAdvance} (hb : b.Valid) : '@' ∉ b.commitSha.toList := by
    intro hmem
    exact (hb.commitSha _ hmem).ne_at rfl
  constructor
  · intro h
    rw [← String.toList_inj, (payload_spec hp).2, (payload_spec hp').2] at h
    -- The key is taken apart at its last `@`, then at its first slash.
    rcases append_sep_inj_last (hat ha) (hat ha') h with ⟨hrepository, hsha⟩
    rcases append_sep_inj (hslash ha) (hslash ha') hrepository with ⟨horg, hrepo⟩
    cases a
    cases a'
    simp_all [String.toList_inj]
  · rintro rfl
    rw [Except.ok.inj (hp.symm.trans hp')]

/-- The id separates two head advances as the key does exactly when they are of different commits, or the
repositories are the same or differ in more than the characters that end as a dash. -/
theorem eventId_separates_iff (ha : a.Valid) (ha' : a'.Valid) (hp : a.payload = .ok p)
    (hp' : a'.payload = .ok p') :
    (p.eventId = p'.eventId ↔ p.dedupKey = p'.dedupKey) ↔
      a.commitSha ≠ a'.commitSha ∨ (a.organization = a'.organization ∧ a.repo = a'.repo) ∨
        ¬ Blurred a a' := by
  rw [eventId_eq_iff ha ha' hp hp', dedupKey_eq_iff ha ha' hp hp']
  constructor
  · intro h
    by_cases hsha : a.commitSha = a'.commitSha
    · refine Or.inr ?_
      by_cases hblurred : Blurred a a'
      · have heq : a = a' := h.1 ⟨hsha, hblurred⟩
        exact Or.inl ⟨congrArg organization heq, congrArg repo heq⟩
      · exact Or.inr hblurred
    · exact Or.inl hsha
  · intro h
    constructor
    · rintro ⟨hsha, hblurred⟩
      rcases h with hne | ⟨horg, hrepo⟩ | hnot
      · exact absurd hsha hne
      · exact HeadAdvance.ext horg hrepo hsha
      · exact absurd hblurred hnot
    · rintro rfl
      exact ⟨rfl, blurred_refl a⟩

/-- The repositories `a-b/c` and `a/b-c` at one commit. -/
def dashInOrganization : HeadAdvance :=
  ⟨"a-b", "c", "0123abcd"⟩

def dashInRepo : HeadAdvance :=
  ⟨"a", "b-c", "0123abcd"⟩

theorem valid_of_all {a : HeadAdvance} (horg : a.organization ≠ "") (hrepo : a.repo ≠ "")
    (hnames : ((a.organization.toList ++ a.repo.toList).all fun c => decide (NameChar c)) = true)
    (hsha : (a.commitSha.toList.all fun c => decide (HexChar c)) = true) : a.Valid := by
  simp only [List.all_append, Bool.and_eq_true, List.all_eq_true, decide_eq_true_eq] at hnames hsha
  exact ⟨horg, hnames.1, hrepo, hnames.2, hsha⟩

theorem valid_dashInOrganization : dashInOrganization.Valid :=
  valid_of_all (by decide) (by decide) (by decide +kernel) (by decide +kernel)

theorem valid_dashInRepo : dashInRepo.Valid :=
  valid_of_all (by decide) (by decide) (by decide +kernel) (by decide +kernel)

theorem payload_dashInOrganization :
    dashInOrganization.payload = .ok (payloadOf dashInOrganization "a-b-c-0123abcd") := by
  decide +kernel

theorem payload_dashInRepo : dashInRepo.payload = .ok (payloadOf dashInRepo "a-b-c-0123abcd") := by
  decide +kernel

theorem eventId_confuses :
    ¬ ∀ (a a' : HeadAdvance) (p p' : MergeEventPayload), a.Valid → a'.Valid → a.payload = .ok p →
      a'.payload = .ok p' → (p.eventId = p'.eventId ↔ p.dedupKey = p'.dedupKey) := by
  intro h
  have hkey := (h dashInOrganization dashInRepo _ _ valid_dashInOrganization valid_dashInRepo
    payload_dashInOrganization payload_dashInRepo).1 rfl
  exact absurd hkey (by decide +kernel)

theorem eventId_separates_iff_dashed :
    ((payloadOf dashInOrganization "a-b-c-0123abcd").eventId =
        (payloadOf dashInRepo "a-b-c-0123abcd").eventId ↔
      (payloadOf dashInOrganization "a-b-c-0123abcd").dedupKey =
        (payloadOf dashInRepo "a-b-c-0123abcd").dedupKey) ↔
      dashInOrganization.commitSha ≠ dashInRepo.commitSha ∨
        (dashInOrganization.organization = dashInRepo.organization ∧
          dashInOrganization.repo = dashInRepo.repo) ∨
        ¬ Blurred dashInOrganization dashInRepo :=
  eventId_separates_iff valid_dashInOrganization valid_dashInRepo payload_dashInOrganization
    payload_dashInRepo

end Ids

end HeadAdvance

end SourceController
end Aivcs
