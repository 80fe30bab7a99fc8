import Aivcs.Lib.Digest
import Aivcs.Lib.Float64
import Aivcs.Lib.JsonText
import Aivcs.Lib.Text
import Mathlib.Data.List.Lex

/-!
# Domain.Digest — canonical JSON, its digest and agent specs

`canonical_json` normalises numbers, sorts keys and writes the compact text; `compute_digest` hashes the
text.  A `serde_json::Value` holds finite numbers only, so the branch that rejects NaN and infinities is
never taken and neither function fails.

How a float is written is code of another package, here the parameter `fmt`; `FloatText` is what is relied
on.  The hash is a parameter as well.
-/

namespace Aivcs
namespace Domain

open Lib

/-- `serde_json::Number`: an integer that fits an `i64` or a `u64`, or a finite float. -/
inductive Number where
  | int (n : Int) (range : -2 ^ 63 ≤ n ∧ n < 2 ^ 64)
  | float (f : F64)
deriving DecidableEq

/-- `a == b` of numbers: an integer and a float are never equal, and the two zeros are. -/
def Number.Equal : Number → Number → Prop
  | .int n _, .int m _ => n = m
  | .float f, .float g => f.units = g.units
  | _, _ => False

instance (a b : Number) : Decidable (a.Equal b) := by
  cases a <;> cases b <;> unfold Number.Equal <;> infer_instance

theorem Number.Equal.refl (n : Number) : n.Equal n := by
  cases n <;> rfl

/-- `serde_json::Value`: its objects are maps. -/
structure Value where
  doc : Doc Number
  unique : doc.UniqueKeys

/-- `f as i64`, of a float that is an integer: the cast saturates. -/
def asI64 (n : Int) : Int :=
  max (-2 ^ 63) (min n (2 ^ 63 - 1))

theorem asI64_range (n : Int) : -2 ^ 63 ≤ asI64 n ∧ asI64 n < 2 ^ 64 := by
  unfold asI64
  omega

/-- The `Number` arm of `normalize_value`. -/
def normalizeNumber : Number → Number
  | .int n range => .int n range
  | .float f =>
      match f.toInt? with
      -- `i64::MAX as f64` rounds up to `2⁶³`.
      | some n =>
          if -2 ^ 63 ≤ n ∧ n ≤ 2 ^ 63 then .int (asI64 n) (asI64_range n) else .float f
      | none => .float f

def normalizeValue (value : Doc Number) : Doc Number :=
  value.mapNum normalizeNumber

def sortKeysUtf16 (value : Doc Number) : Doc Number :=
  value.sortKeys utf16

/-- How `serde_json` writes a number. -/
def numberText (fmt : F64 → Bytes) : Number → Bytes
  | .int n _ => Json.renderInt n
  | .float f => fmt f

def canonicalJson (fmt : F64 → Bytes) (value : Value) : Bytes :=
  (sortKeysUtf16 (normalizeValue value.doc)).render (numberText fmt)

def computeDigest (fmt : F64 → Bytes) (sha256Hex : Bytes → String) (value : Value) : String :=
  sha256Hex (canonicalJson fmt value)

/-! ## Agent specs -/

structure AgentSpecFields where
  gitSha : String
  graphDigest : String
  promptsDigest : String
  toolsDigest : String
  configDigest : String

def AgentSpecFields.toValue (fields : AgentSpecFields) : Value where
  doc := .obj [("git_sha", .str fields.gitSha), ("graph_digest", .str fields.graphDigest),
    ("prompts_digest", .str fields.promptsDigest), ("tools_digest", .str fields.toolsDigest),
    ("config_digest", .str fields.configDigest)]
  unique := by simp

structure AgentSpec extends AgentSpecFields where
  specDigest : String

/-- `AgentSpec::new`; the error is the text of an `InvalidAgentSpec`. -/
def AgentSpec.new (fmt : F64 → Bytes) (sha256Hex : Bytes → String) (fields : AgentSpecFields) :
    Except String AgentSpec :=
  if fields.gitSha = "" then .error "invalid agent spec: git_sha cannot be empty"
  else .ok { fields with specDigest := computeDigest fmt sha256Hex fields.toValue }

/-! ## What is relied on -/

/-- Floats are written in the bytes of numbers, with a point or an exponent, and can be read back. -/
structure FloatText (fmt : F64 → Bytes) : Prop where
  mem : ∀ f, ∀ b ∈ fmt f, Doc.isNumByte b = true
  marked : ∀ f, 46 ∈ fmt f ∨ 101 ∈ fmt f
  injective : Function.Injective fmt

/-- The point or the exponent tells floats from integers. -/
theorem FloatText.numberText {fmt : F64 → Bytes} (hfmt : FloatText fmt) :
    Doc.NumberText (numberText fmt) where
  ne_nil := by
    intro n h
    cases n with
    | int n range =>
        exact Doc.renderInt_ne_nil n h
    | float f =>
        have hnil : fmt f = [] := h
        rcases hfmt.marked f with hmark | hmark <;> simp [hnil] at hmark
  mem := by
    intro n b hb
    cases n with
    | int n range =>
        exact (Doc.isNumByte_of_mem_renderInt hb).1
    | float f =>
        exact hfmt.mem f b hb
  injective := by
    have hapart : ∀ (n : Int) (f : F64), Json.renderInt n ≠ fmt f := by
      intro n f h
      rcases hfmt.marked f with hmark | hmark
      · exact (Doc.isNumByte_of_mem_renderInt (h ▸ hmark)).2.1 rfl
      · exact (Doc.isNumByte_of_mem_renderInt (h ▸ hmark)).2.2 rfl
    intro n n' h
    cases n with
    | int n range =>
        cases n' with
        | int n' range' =>
            obtain rfl : n = n' := Doc.renderInt_injective h
            rfl
        | float f' =>
            exact absurd h (hapart n f')
    | float f =>
        cases n' with
        | int n' range' =>
            exact absurd h.symm (hapart n' f)
        | float f' =>
            rw [hfmt.injective h]

end Domain
end Aivcs
