import Mathlib.Data.List.DropRight
import Mathlib.Data.List.TakeWhile
import Aivcs.Lib.Bytes

/-!
# UrlPath — the path of a URL that was put together as a text

A name that is written into the text of a URL as it is need not come back as a segment of its path.  What
is read from the text ends before a query or a fragment and has no tabs or line breaks, a backslash counts
as a slash, dot segments lead up, and the reader of a segment decodes its percent escapes.

Everything is done on UTF-8 bytes.  The escapes that a parser adds for other characters are left out, since
decoding takes them back.

* `pathSegments` — the segments of the path;
* `pathSegments_eq` — of a text that is a path already, they are its pieces without the dot segments;
* `percentDecode_percentEncode` — a name that is written encoded comes back.
-/

namespace Aivcs
namespace Lib
namespace UrlPath

/-! ## From a text to segments -/

/-- Tabs and line breaks are taken out. -/
def isDropped (b : UInt8) : Bool :=
  b = 9 || b = 10 || b = 13

/-- A query or a fragment begins. -/
def endsPath (b : UInt8) : Bool :=
  b = 63 || b = 35

/-- The path at the end of a URL; blanks and control characters at the very end do not count. -/
def pathText (text : Bytes) : Bytes :=
  ((text.rdropWhile fun b => b ≤ 32).filter fun b => !isDropped b).takeWhile fun b => !endsPath b

def slashed (text : Bytes) : Bytes :=
  text.map fun b => if b = 92 then 47 else b

def singleDots : List Bytes :=
  [".", "%2e", "%2E"].map utf8

def doubleDots : List Bytes :=
  ["..", "%2e%2e", "%2e%2E", "%2E%2e", "%2E%2E", "%2e.", "%2E.", ".%2e", ".%2E"].map utf8

/-- Follow segments from a directory, whose own segments come innermost first.  Dots at the end lead to a
directory, so an empty segment stays. -/
def follow : List Bytes → List Bytes → List Bytes
  | dir, [] => dir
  | dir, segment :: segments =>
      if segment ∈ doubleDots then follow (if segments = [] then [] :: dir.tail else dir.tail) segments
      else if segment ∈ singleDots then follow (if segments = [] then [] :: dir else dir) segments
      else follow (segment :: dir) segments

/-- The segments of the path that the text of a URL goes on with after its authority and a slash. -/
def pathSegments (text : Bytes) : List Bytes :=
  (follow [] ((slashed (pathText text)).splitOn 47)).reverse

/-- A text that the parser takes as it is. -/
structure IsPath (text : Bytes) : Prop where
  bytes : ∀ b ∈ text, isDropped b = false ∧ endsPath b = false ∧ b ≠ 92
  last : ∀ b, text.getLast? = some b → 32 < b

theorem pathText_eq {text : Bytes} (h : IsPath text) : pathText text = text := by
  have hlast : text.rdropWhile (fun b => decide (b ≤ 32)) = text := by
    rw [List.rdropWhile_eq_self_iff]
    intro hne
    rw [decide_eq_true_eq, UInt8.not_le]
    exact h.last _ (List.getLast?_eq_some_getLast hne)
  rw [pathText, hlast, List.filter_eq_self.2, List.takeWhile_eq_self_iff.2]
  · intro b hb
    rw [(h.bytes b hb).2.1]
    rfl
  · intro b hb
    rw [(h.bytes b hb).1]
    rfl

theorem pathSegments_eq {text : Bytes} (h : IsPath text) :
    pathSegments text = (follow [] (text.splitOn 47)).reverse := by
  have hslashed : slashed text = text := by
    refine (List.map_congr_left fun b hb => ?_).trans (List.map_id text)
    rw [if_neg (h.bytes b hb).2.2]
    rfl
  rw [pathSegments, pathText_eq h, hslashed]

theorem follow_name {dir segments : List Bytes} {segment : Bytes} (hsingle : segment ∉ singleDots)
    (hdouble : segment ∉ doubleDots) :
    follow dir (segment :: segments) = follow (segment :: dir) segments := by
  rw [follow, if_neg hdouble, if_neg hsingle]

/-! ## Percent escapes -/

def hexDigit (n : Nat) : UInt8 :=
  UInt8.ofNat (if n < 10 then 48 + n else 55 + n)

def hexVal (b : UInt8) : Option Nat :=
  if 48 ≤ b ∧ b ≤ 57 then some (b.toNat - 48)
  else if 65 ≤ b ∧ b ≤ 70 then some (b.toNat - 55)
  else if 97 ≤ b ∧ b ≤ 102 then some (b.toNat - 87)
  else none

/-- Letters, digits and four marks stand for themselves. -/
def isUnreserved (b : UInt8) : Bool :=
  (48 ≤ b && b ≤ 57) || (65 ≤ b && b ≤ 90) || (97 ≤ b && b ≤ 122) || b = 45 || b = 46 || b = 95 || b = 126

def encodeByte (b : UInt8) : Bytes :=
  if isUnreserved b then [b] else [37, hexDigit (b.toNat / 16), hexDigit (b.toNat % 16)]

def percentEncode (bs : Bytes) : Bytes :=
  bs.flatMap encodeByte

/-- A percent sign that no two digits follow stands for itself. -/
def percentDecode : Bytes → Bytes
  | [] => []
  | [b] => [b]
  | [b, c] => [b, c]
  | b :: c :: d :: bs =>
      if b = 37 then
        match hexVal c, hexVal d with
        | some x, some y => UInt8.ofNat (16 * x + y) :: percentDecode bs
        | _, _ => b :: percentDecode (c :: d :: bs)
      else b :: percentDecode (c :: d :: bs)

theorem percentDecode_cons {b : UInt8} (hb : b ≠ 37) (bs : Bytes) :
    percentDecode (b :: bs) = b :: percentDecode bs := by
  match bs with
  | [] => rfl
  | [c] => rfl
  | c :: d :: bs => rw [percentDecode, if_neg hb]

theorem hexVal_hexDigit : ∀ n < 16, hexVal (hexDigit n) = some n := by
  decide

theorem percentDecode_encodeByte (b : UInt8) (bs : Bytes) :
    percentDecode (encodeByte b ++ bs) = b :: percentDecode bs := by
  rw [encodeByte]
  by_cases hb : isUnreserved b = true
  · have hne : b ≠ 37 := by
      rintro rfl
      cases hb
    rw [if_pos hb, List.singleton_append, percentDecode_cons hne]
  · have hlt := b.toNat_lt
    rw [if_neg hb]
    show percentDecode (37 :: hexDigit (b.toNat / 16) :: hexDigit (b.toNat % 16) :: bs) = _
    rw [percentDecode, if_pos rfl, hexVal_hexDigit _ (by omega), hexVal_hexDigit _ (by omega)]
    simp only
    rw [Nat.div_add_mod, UInt8.ofNat_toNat]

theorem percentDecode_percentEncode (bs : Bytes) : percentDecode (percentEncode bs) = bs := by
  induction bs with
  | nil => rfl
  | cons b bs ih => rw [percentEncode, List.flatMap_cons, percentDecode_encodeByte, ← percentEncode, ih]

theorem unreserved_or_percent {b : UInt8} {bs : Bytes} (h : b ∈ percentEncode bs) :
    isUnreserved b = true ∨ b = 37 := by
  obtain ⟨c, -, hc⟩ := List.mem_flatMap.1 h
  have hdigit : ∀ n < 16, isUnreserved (hexDigit n) = true := by decide
  have hlt := c.toNat_lt
  rw [encodeByte] at hc
  split at hc
  · next hunreserved =>
    rw [List.mem_singleton.1 hc]
    exact .inl hunreserved
  · rcases List.mem_cons.1 hc with rfl | hc
    · exact .inr rfl
    · rcases List.mem_cons.1 hc with rfl | hc
      · exact .inl (hdigit _ (by omega))
      · rw [List.mem_singleton.1 hc]
        exact .inl (hdigit _ (by omega))

/-- Nothing in an encoded name has a meaning in a path. -/
theorem of_mem_percentEncode {b : UInt8} {bs : Bytes} (h : b ∈ percentEncode bs) :
    isDropped b = false ∧ endsPath b = false ∧ b ≠ 92 ∧ b ≠ 47 := by
  have hnot : ∀ c ∈ ([9, 10, 13, 63, 35, 92, 47] : Bytes), b ≠ c := by
    rintro c hc rfl
    revert h
    have hreserved : ∀ c ∈ ([9, 10, 13, 63, 35, 92, 47] : Bytes), ¬ (isUnreserved c = true ∨ c = 37) := by
      decide +kernel
    exact fun h => hreserved b hc (unreserved_or_percent h)
  simpa [isDropped, endsPath, and_assoc] using hnot

end UrlPath
end Lib
end Aivcs
