import Aivcs.Lib.Decimal
import Aivcs.Lib.Regex
import Aivcs.Lib.Text

/-!
# Release.SemverLock — versions and the pins of the documentation

`normalize_semver` accepts `X.Y.Z` with an optional suffix, spaces around it and `v`s before it.
`verify_docs_download_pins` searches the documents for download links and image tags and compares the three
numbers behind them with the version it is given.  The expressions it searches with know no suffix, so what
it compares is the version a pin names only where the pin has none.
-/

namespace Aivcs
namespace Release

open Lib

/-! ## The code -/

/-- `[0-9]+\.[0-9]+\.[0-9]+`. -/
def corePattern : Regex Char :=
  .seq (.seq (.plus Char.isDigit) (.cls fun c => c = '.'))
    (.seq (.seq (.plus Char.isDigit) (.cls fun c => c = '.')) (.plus Char.isDigit))

def isSuffixStart (c : Char) : Bool :=
  c = '.' || c = '-'

/-- `[0-9A-Za-z.-]`. -/
def isSuffixChar (c : Char) : Bool :=
  c.isDigit || ('A' ≤ c && c ≤ 'Z') || ('a' ≤ c && c ≤ 'z') || c = '.' || c = '-'

/-- `[0-9]+\.[0-9]+\.[0-9]+([.-][0-9A-Za-z.-]+)?`. -/
def semverPattern : Regex Char :=
  .seq corePattern (.opt (.seq (.cls isSuffixStart) (.plus isSuffixChar)))

/-- `raw.trim().trim_start_matches('v')`. -/
def bare (raw : List Char) : List Char :=
  (trimBoth isWhitespace raw).dropWhile fun c => c = 'v'

def normalizeSemver (raw : String) : Except String String :=
  let s := bare raw.toList
  if semverPattern.fullMatch s then .ok (String.ofList s)
  else .error ("'" ++ raw ++ "' is not a valid semver (expected X.Y.Z)")

def pinLiteral : List Char :=
  "releases/download/v".toList

def dockerLiteral : List Char :=
  "ghcr.io/aivcs-io/aivcs:".toList

/-- A loop that ends with the first error. -/
def checkAll {α : Type} (check : α → Option String) : List α → Except String Unit
  | [] => .ok ()
  | x :: xs =>
      match check x with
      | some e => .error e
      | none => checkAll check xs

def checkPin (label version : String) (cap : List Char) : Option String :=
  let found := "v" ++ String.ofList cap
  let expected := "v" ++ version
  if found ≠ expected then some (label ++ " pins " ++ found ++ ", expected " ++ expected) else none

def checkTag (label version : String) (cap : List Char) : Option String :=
  if String.ofList cap ≠ version then
    some (label ++ " Docker tag :" ++ String.ofList cap ++ ", expected :" ++ version)
  else none

/-- One document: its download links, then its image tags. -/
def verifyDoc (version : String) (doc : String × String) : Except String Unit :=
  match checkAll (checkPin doc.1 version)
      (Regex.capturesIter pinLiteral corePattern doc.2.toList) with
  | .error e => .error e
  | .ok () =>
      checkAll (checkTag doc.1 version) (Regex.capturesIter dockerLiteral corePattern doc.2.toList)

def verifyDocsDownloadPins (docs : List (String × String)) (version : String) : Except String Unit :=
  match docs with
  | [] => .ok ()
  | doc :: docs =>
      match verifyDoc version doc with
      | .error e => .error e
      | .ok () => verifyDocsDownloadPins docs version

/-! ## What is accepted -/

theorem verify_ok_iff_docs {docs : List (String × String)} {version : String} :
    verifyDocsDownloadPins docs version = .ok () ↔ ∀ doc ∈ docs, verifyDoc version doc = .ok () := by
  induction docs with
  | nil =>
      simp [verifyDocsDownloadPins]
  | cons doc docs ih =>
      rw [List.forall_mem_cons, ← ih]
      rw [verifyDocsDownloadPins]
      cases verifyDoc version doc with
      | error e => simp
      | ok u => simp

/-! ## Three numbers -/

theorem isWhitespace_of_isDigit {c : Char} (h : c.isDigit = true) : isWhitespace c = false := by
  have hbounds := digit_bounds h
  have hzero : '0'.toNat = 48 := rfl
  unfold isWhitespace
  simp only [Bool.or_eq_false_iff, Bool.and_eq_false_iff, decide_eq_false_iff_not]
  omega

/-- What `normalize_semver` accepts. -/
def IsVersion (cs : List Char) : Prop :=
  semverPattern.Matches (bare cs)

theorem normalizeSemver_ok_iff {raw v : String} :
    normalizeSemver raw = .ok v ↔ IsVersion raw.toList ∧ v.toList = bare raw.toList := by
  unfold normalizeSemver IsVersion
  rw [← Regex.fullMatch_iff]
  by_cases h : semverPattern.fullMatch (bare raw.toList) = true
  · rw [if_pos h, Except.ok.injEq, ← String.toList_inj, String.toList_ofList, eq_comm]
    simp [h]
  · simp [h]

end Release
end Aivcs
