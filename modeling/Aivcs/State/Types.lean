import Mathlib.Logic.Function.Basic

/-!
# State.Types — the types of the storage traits

The digests, run and release types of `oxidized_state::storage_traits`.  JSON values are a type
parameter: no storage operation looks into one.  A timestamp is a number of nanoseconds.
-/

namespace Aivcs
namespace State

/-- The characters of a digest. -/
def isLowerHex (c : Char) : Bool :=
  ('0' ≤ c && c ≤ '9') || ('a' ≤ c && c ≤ 'f')

theorem isLowerHex_zero : isLowerHex '0' = true := rfl

theorem isLowerHex_one : isLowerHex '1' = true := rfl

theorem isLowerHex_two : isLowerHex '2' = true := rfl

/-- A SHA-256 digest: 64 lowercase hexadecimal digits. -/
structure ContentDigest where
  str : String
  length_eq : str.length = 64
  hex : str.toList.all isLowerHex = true
  deriving DecidableEq

/-- The digest whose 64 digits are all `c`. -/
def ContentDigest.replicate (c : Char) (hc : isLowerHex c = true) : ContentDigest :=
  ⟨String.ofList (List.replicate 64 c), by simp, by simp [hc]⟩

abbrev Timestamp : Type := Int

abbrev RunId : Type := String

structure EvaluationMetadata where
  rubricPath : Option String
  isPromotionGate : Bool
  agentPhase : UInt8
  deriving DecidableEq

/-- `EvaluationMetadata::default`. -/
def EvaluationMetadata.default : EvaluationMetadata :=
  ⟨none, false, 0⟩

structure RunMetadata (Value : Type) where
  gitSha : Option String
  agentName : String
  tags : Value
  evaluation : EvaluationMetadata
  deriving DecidableEq

structure RunEvent (Value : Type) where
  seq : Nat
  kind : String
  payload : Value
  timestamp : Timestamp
  deriving DecidableEq

structure RunSummary where
  totalEvents : Nat
  finalStateDigest : Option ContentDigest
  durationMs : Nat
  success : Bool
  deriving DecidableEq

inductive RunStatus where
  | running
  | completed
  | failed
  | cancelled
  deriving DecidableEq

structure RunRecord (Value : Type) where
  runId : RunId
  specDigest : ContentDigest
  metadata : RunMetadata Value
  status : RunStatus
  summary : Option RunSummary
  createdAt : Timestamp
  completedAt : Option Timestamp
  deriving DecidableEq

structure ReleaseMetadata where
  versionLabel : Option String
  promotedBy : String
  notes : Option String
  deriving DecidableEq

structure ReleaseRecord where
  name : String
  specDigest : ContentDigest
  metadata : ReleaseMetadata
  createdAt : Timestamp
  deriving DecidableEq

/-- The errors of the storage traits. -/
inductive StorageError where
  | notFound (digest : String)
  | runNotFound (runId : String)
  | invalidRunState (runId status expected : String)
  | releaseNotFound (name : String)
  | noPreviousRelease (name : String)
  | invalidDigest (digest : String)
  | integrityError (expected actual : String)
  | backend (detail : String)
  | serialization (detail : String)
  deriving DecidableEq

/-- The text `Display` gives. -/
def StorageError.toString : StorageError → String
  | .notFound digest => "content not found: " ++ digest
  | .runNotFound runId => "run not found: " ++ runId
  | .invalidRunState runId status expected =>
      "run " ++ runId ++ " is " ++ status ++ ", expected " ++ expected
  | .releaseNotFound name => "release not found: " ++ name
  | .noPreviousRelease name => "no previous release for '" ++ name ++ "' to roll back to"
  | .invalidDigest digest => "invalid digest: " ++ digest
  | .integrityError expected actual =>
      "integrity error: expected " ++ expected ++ ", got " ++ actual
  | .backend detail => "storage backend error: " ++ detail
  | .serialization detail => "serialization error: " ++ detail

/-- The variant of an error, without its texts. -/
inductive StorageErrorKind where
  | notFound
  | runNotFound
  | invalidRunState
  | releaseNotFound
  | noPreviousRelease
  | invalidDigest
  | integrityError
  | backend
  | serialization
  deriving DecidableEq

def StorageError.kind : StorageError → StorageErrorKind
  | .notFound _ => .notFound
  | .runNotFound _ => .runNotFound
  | .invalidRunState _ _ _ => .invalidRunState
  | .releaseNotFound _ => .releaseNotFound
  | .noPreviousRelease _ => .noPreviousRelease
  | .invalidDigest _ => .invalidDigest
  | .integrityError _ _ => .integrityError
  | .backend _ => .backend
  | .serialization _ => .serialization

/-! ## Digests from text -/

/-- `char::is_ascii_hexdigit`. -/
def isAsciiHexdigit (c : Char) : Bool :=
  isLowerHex c || ('A' ≤ c && c ≤ 'F')

theorem isLowerHex_toLower {c : Char} (h : isAsciiHexdigit c = true) :
    isLowerHex c.toLower = true := by
  unfold Char.toLower
  simp only [isAsciiHexdigit, isLowerHex, Bool.or_eq_true, Bool.and_eq_true, decide_eq_true_eq,
    Char.le_def, UInt32.le_iff_toNat_le, ge_iff_le] at h ⊢
  split <;> grind [UInt32.toNat_add]

theorem toLower_of_isLowerHex {c : Char} (h : isLowerHex c = true) : c.toLower = c := by
  simp only [isLowerHex, Bool.or_eq_true, Bool.and_eq_true, decide_eq_true_eq,
    Char.le_def, UInt32.le_iff_toNat_le] at h
  unfold Char.toLower
  simp only [UInt32.le_iff_toNat_le]
  grind

/-- `TryFrom<String>`: 64 hexadecimal digits, made lowercase.  A text of such digits has as many
bytes as characters. -/
def ContentDigest.tryFrom (s : String) : Except StorageError ContentDigest :=
  if h : s.length = 64 ∧ s.toList.all isAsciiHexdigit = true then
    .ok
      { str := String.ofList (s.toList.map Char.toLower)
        length_eq := by rw [String.length_ofList, List.length_map, String.length_toList, h.1]
        hex := by
          rw [String.toList_ofList, List.all_map, List.all_eq_true]
          intro c hc
          exact isLowerHex_toLower (List.all_eq_true.mp h.2 c hc) }
  else
    .error (.invalidDigest s)

@[simp] theorem ContentDigest.tryFrom_str (d : ContentDigest) : tryFrom d.str = .ok d := by
  have hhex : d.str.toList.all isAsciiHexdigit = true := by
    rw [List.all_eq_true]
    intro c hc
    simp [isAsciiHexdigit, List.all_eq_true.mp d.hex c hc]
  have hlower : d.str.toList.map Char.toLower = d.str.toList := by
    have hsame := List.map_congr_left fun c hc =>
      toLower_of_isLowerHex (List.all_eq_true.mp d.hex c hc)
    rw [hsame, List.map_id']
  unfold ContentDigest.tryFrom
  rw [dif_pos ⟨d.length_eq, hhex⟩]
  simp [hlower]

end State
end Aivcs
