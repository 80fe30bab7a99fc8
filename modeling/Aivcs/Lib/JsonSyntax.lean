import Mathlib.Algebra.Field.Rat
import Mathlib.Data.List.Chain
import Aivcs.Lib.Decimal
import Aivcs.Lib.TextSearch

/-!
# JsonSyntax — JSON texts as they are written

A JSON text is a list of tokens, each with the whitespace after it.  `Grammar` says which lists are values;
an object is given by its members, so that its own members can be told from those of what it contains.

* `Grammar.isChain` — two tokens that are no marks do not follow one another.
* `Object.grammar` — an object is a value.
-/

namespace Aivcs
namespace Lib
namespace JsonSyntax

/-! ## Tokens -/

def isGap (c : Char) : Bool :=
  c = ' ' || c = '\t' || c = '\n' || c = '\r'

theorem all_isGap_nil : ([] : List Char).all isGap = true := rfl

/-- Whitespace between two tokens. -/
abbrev Gap := {cs : List Char // cs.all isGap = true}

inductive Mark where
  | openArray
  | closeArray
  | openObject
  | closeObject
  | colon
  | comma
  deriving DecidableEq

def Mark.char : Mark → Char
  | openArray => '['
  | closeArray => ']'
  | openObject => Char.ofNat 0x7B
  | closeObject => Char.ofNat 0x7D
  | colon => ':'
  | comma => ','

/-- The escapes of two characters. -/
inductive Escape where
  | quote
  | backslash
  | slash
  | backspace
  | formFeed
  | lineFeed
  | carriageReturn
  | tab
  deriving DecidableEq

def Escape.letter : Escape → Char
  | quote => '"'
  | backslash => '\\'
  | slash => '/'
  | backspace => 'b'
  | formFeed => 'f'
  | lineFeed => 'n'
  | carriageReturn => 'r'
  | tab => 't'

def Escape.value : Escape → Nat
  | quote => 0x22
  | backslash => 0x5C
  | slash => 0x2F
  | backspace => 0x08
  | formFeed => 0x0C
  | lineFeed => 0x0A
  | carriageReturn => 0x0D
  | tab => 0x09

def isHex (c : Char) : Bool :=
  c.isDigit || ('a' ≤ c && c ≤ 'f') || ('A' ≤ c && c ≤ 'F')

def hexValue (c : Char) : Nat :=
  if c.isDigit then c.toNat - '0'.toNat
  else if 'a' ≤ c then c.toNat - 'a'.toNat + 10
  else c.toNat - 'A'.toNat + 10

abbrev HexDigit := {c : Char // isHex c = true}

/-- A character that may stand for itself in a string. -/
def isPlain (c : Char) : Bool :=
  c ≠ '"' && c ≠ '\\' && 0x20 ≤ c.toNat

/-- What a string is written of. -/
inductive Piece where
  | plain (c : {c : Char // isPlain c = true})
  | escape (e : Escape)
  | code (a b c d : HexDigit)
  deriving DecidableEq

def Piece.text : Piece → List Char
  | plain c => [c]
  | escape e => ['\\', e.letter]
  | code a b c d => ['\\', 'u', a, b, c, d]

def Piece.isEscaped : Piece → Bool
  | plain _ => false
  | _ => true

def utf16Char (c : Char) : List Nat :=
  if c.toNat < 0x10000 then [c.toNat]
  else [0xD800 + (c.toNat - 0x10000) / 0x400, 0xDC00 + (c.toNat - 0x10000) % 0x400]

def utf16 (cs : List Char) : List Nat :=
  cs.flatMap utf16Char

def Piece.units : Piece → List Nat
  | plain c => utf16Char c
  | escape e => [e.value]
  | code a b c d => [((hexValue a * 16 + hexValue b) * 16 + hexValue c) * 16 + hexValue d]

/-- A string, without its quotes. -/
abbrev Str := List Piece

namespace Str

def text (s : Str) : List Char :=
  s.flatMap Piece.text

/-- What the string stands for. -/
def units (s : Str) : List Nat :=
  s.flatMap Piece.units

/-- Without escapes. -/
def Plain (s : Str) : Prop :=
  s.all (fun p => !p.isEscaped) = true

instance (s : Str) : Decidable s.Plain :=
  inferInstanceAs (Decidable (_ = true))

/-- The string that is written as these characters, those left out that need an escape. -/
def ofPlain (cs : List Char) : Str :=
  cs.filterMap fun c => if h : isPlain c = true then some (.plain ⟨c, h⟩) else none

/-- The key, in quotes, ends where the string does: it is all of it, or follows an escaped quote. -/
def Shows (k : List Char) (s : Str) : Prop :=
  s.text = k ∨ '"' :: k <:+ s.text

instance (k : List Char) (s : Str) : Decidable (s.Shows k) :=
  inferInstanceAs (Decidable (_ ∨ _))

end Str

structure Exponent where
  upper : Bool
  sign : Option Bool
  digits : List Char
  numeral : Numeral digits

def Exponent.text (e : Exponent) : List Char :=
  (if e.upper then 'E' else 'e') :: (match e.sign with
    | none => e.digits
    | some true => '+' :: e.digits
    | some false => '-' :: e.digits)

structure Number where
  minus : Bool
  int : List Char
  fraction : Option (List Char)
  exponent : Option Exponent
  int_numeral : Numeral int
  int_leading : int.head? = some '0' → int = ['0']
  fraction_numeral : ∀ ds ∈ fraction, Numeral ds

namespace Number

/-- What is written after the integer part. -/
def tail (n : Number) : List Char :=
  (match n.fraction with
    | none => []
    | some ds => '.' :: ds) ++
    (match n.exponent with
    | none => []
    | some e => e.text)

def text (n : Number) : List Char :=
  (if n.minus then ['-'] else []) ++ (n.int ++ n.tail)

def value (n : Number) : ℚ :=
  (if n.minus then -1 else 1) * decimal (n.int ++ n.fraction.getD []) / 10 ^ (n.fraction.getD []).length *
    (match n.exponent with
    | none => 1
    | some e => if e.sign = some false then 1 / 10 ^ decimal e.digits else 10 ^ decimal e.digits)

end Number

inductive Literal where
  | null
  | bool (b : Bool)
  | number (n : Number)

def Literal.text : Literal → List Char
  | null => ['n', 'u', 'l', 'l']
  | bool true => ['t', 'r', 'u', 'e']
  | bool false => ['f', 'a', 'l', 's', 'e']
  | number n => n.text

/-- A token and the whitespace after it. -/
inductive Token where
  | mark (m : Mark) (gap : Gap)
  | literal (l : Literal) (gap : Gap)
  | string (s : Str) (gap : Gap)

namespace Token

def text : Token → List Char
  | mark m g => m.char :: g
  | literal l g => l.text ++ g
  | string s g => '"' :: (s.text ++ '"' :: g)

def IsMark : Token → Prop
  | mark _ _ => True
  | _ => False

end Token

def render (ts : List Token) : List Char :=
  ts.flatMap Token.text

/-! ## The grammar -/

inductive Kind where
  | value
  | elements
  | members

/-- The tokens are a value, the elements of an array or the members of an object. -/
inductive Grammar : Kind → List Token → Prop where
  | literal (l : Literal) (g : Gap) :
      Grammar .value [.literal l g]
  | string (s : Str) (g : Gap) :
      Grammar .value [.string s g]
  | emptyArray (g g' : Gap) :
      Grammar .value [.mark .openArray g, .mark .closeArray g']
  | array {ts : List Token} (g g' : Gap) :
      Grammar .elements ts → Grammar .value (.mark .openArray g :: (ts ++ [.mark .closeArray g']))
  | emptyObject (g g' : Gap) :
      Grammar .value [.mark .openObject g, .mark .closeObject g']
  | object {ts : List Token} (g g' : Gap) :
      Grammar .members ts → Grammar .value (.mark .openObject g :: (ts ++ [.mark .closeObject g']))
  | element {ts : List Token} :
      Grammar .value ts → Grammar .elements ts
  | elements {ts us : List Token} (g : Gap) :
      Grammar .value ts → Grammar .elements us → Grammar .elements (ts ++ .mark .comma g :: us)
  | member {ts : List Token} (k : Str) (g g' : Gap) :
      Grammar .value ts → Grammar .members (.string k g :: .mark .colon g' :: ts)
  | members {ts us : List Token} (k : Str) (g g' g'' : Gap) :
      Grammar .value ts → Grammar .members us →
        Grammar .members (.string k g :: .mark .colon g' :: (ts ++ .mark .comma g'' :: us))

/-- Of two tokens that follow one another, one is a mark. -/
def Separated (a b : Token) : Prop :=
  a.IsMark ∨ b.IsMark

section Chains

variable {ts us : List Token} {t : Token} {m : Mark} {g : Gap}

theorem isChain_mark_cons : (Token.mark m g :: ts).IsChain Separated ↔ ts.IsChain Separated := by
  rw [List.isChain_cons]
  exact and_iff_right fun _ _ => Or.inl trivial

/-- A mark joins what is before it to what is after. -/
theorem isChain_append_mark : (ts ++ .mark m g :: us).IsChain Separated ↔
    ts.IsChain Separated ∧ us.IsChain Separated := by
  rw [List.isChain_append, isChain_mark_cons, and_congr_right_iff]
  intro _
  refine and_iff_left fun a _ b hb => ?_
  rw [← Option.some.inj hb]
  exact Or.inr trivial

/-- A key and its colon stand before the value. -/
theorem isChain_key_cons {k : Str} {g' : Gap} :
    (Token.string k g :: .mark .colon g' :: ts).IsChain Separated ↔ ts.IsChain Separated := by
  rw [List.isChain_cons_cons, isChain_mark_cons]
  exact and_iff_right (Or.inr trivial)

theorem Grammar.isChain {kind : Kind} (h : Grammar kind ts) : ts.IsChain Separated := by
  induction h with
  | literal l g =>
      exact List.isChain_singleton _
  | string s g =>
      exact List.isChain_singleton _
  | emptyArray g g' =>
      exact isChain_mark_cons.2 (List.isChain_singleton _)
  | array g g' _ ih =>
      exact isChain_mark_cons.2 (isChain_append_mark.2 ⟨ih, List.isChain_nil⟩)
  | emptyObject g g' =>
      exact isChain_mark_cons.2 (List.isChain_singleton _)
  | object g g' _ ih =>
      exact isChain_mark_cons.2 (isChain_append_mark.2 ⟨ih, List.isChain_nil⟩)
  | element _ ih =>
      exact ih
  | elements g _ _ ih ih' =>
      exact isChain_append_mark.2 ⟨ih, ih'⟩
  | member k g g' _ ih =>
      exact isChain_key_cons.2 ih
  | members k g g' g'' _ _ ih ih' =>
      exact isChain_key_cons.2 (isChain_append_mark.2 ⟨ih, ih'⟩)

end Chains

/-! ## Objects and their own members -/

/-- Items between brackets, with a comma before each but the first. -/
inductive Items (α : Type) where
  | empty
  | cons (first : α) (rest : List (Gap × α))

namespace Items

variable {α : Type}

def toList : Items α → List α
  | empty => []
  | cons first rest => first :: rest.map Prod.snd

/-- Items written without whitespace. -/
def compact : List α → Items α
  | [] => empty
  | x :: xs => cons x (xs.map fun y => (⟨[], all_isGap_nil⟩, y))

def tokens (f : α → List Token) : Items α → List Token
  | empty => []
  | cons first rest => f first ++ rest.flatMap fun (g, x) => .mark .comma g :: f x

theorem isChain_tokens {f : α → List Token} {items : Items α}
    (h : ∀ x ∈ items.toList, (f x).IsChain Separated) : (items.tokens f).IsChain Separated := by
  cases items with
  | empty =>
      exact List.isChain_nil
  | cons first rest =>
      rw [toList, List.forall_mem_cons] at h
      rw [tokens]
      induction rest generalizing first with
      | nil =>
          simpa using h.1
      | cons gx rest ih =>
          rw [List.map_cons, List.forall_mem_cons] at h
          rw [List.flatMap_cons, List.cons_append]
          exact isChain_append_mark.2 ⟨h.1, ih gx.2 h.2⟩

end Items

structure Member where
  key : Str
  keyGap : Gap
  colonGap : Gap
  value : List Token
  valid : Grammar .value value

namespace Member

def tokens (m : Member) : List Token :=
  .string m.key m.keyGap :: .mark .colon m.colonGap :: m.value

/-- A member written without whitespace. -/
def compact (key : List Char) (value : List Token) (valid : Grammar .value value) : Member :=
  ⟨Str.ofPlain key, ⟨[], all_isGap_nil⟩, ⟨[], all_isGap_nil⟩, value, valid⟩

/-- A member whose value is a string without escapes. -/
def text (key value : List Char) : Member :=
  compact key [.string (.ofPlain value) ⟨[], all_isGap_nil⟩] (.string _ _)

theorem isChain_tokens (m : Member) : m.tokens.IsChain Separated :=
  isChain_key_cons.2 m.valid.isChain

theorem grammar_append (m : Member) {ts : List Token} (g : Gap) (h : Grammar .members ts) :
    Grammar .members (m.tokens ++ .mark .comma g :: ts) :=
  .members m.key m.keyGap m.colonGap g m.valid h

/-- Members with commas between them are the members of an object. -/
theorem grammar_cons (first : Member) (rest : List (Gap × Member)) :
    Grammar .members ((Items.cons first rest).tokens tokens) := by
  rw [Items.tokens]
  induction rest generalizing first with
  | nil =>
      rw [List.flatMap_nil, List.append_nil]
      exact .member _ _ _ first.valid
  | cons gm rest ih =>
      rw [List.flatMap_cons, List.cons_append]
      exact first.grammar_append gm.1 (ih gm.2)

end Member

structure Object where
  openGap : Gap
  members : Items Member
  closeGap : Gap

namespace Object

def compact (members : List Member) : Object :=
  ⟨⟨[], all_isGap_nil⟩, Items.compact members, ⟨[], all_isGap_nil⟩⟩

def inner (o : Object) : List Token :=
  o.members.tokens Member.tokens

def tokens (o : Object) : List Token :=
  .mark .openObject o.openGap :: (o.inner ++ [.mark .closeObject o.closeGap])

/-- The value of the object's own member of that name, the last if it has several. -/
def field (o : Object) (k : List Char) : Option (List Token) :=
  (o.members.toList.reverse.find? fun m => m.key.units = utf16 k).map Member.value

theorem isChain_tokens (o : Object) : o.tokens.IsChain Separated := by
  have hinner : o.inner.IsChain Separated := Items.isChain_tokens fun m _ => m.isChain_tokens
  exact isChain_mark_cons.2 (isChain_append_mark.2 ⟨hinner, List.isChain_nil⟩)

/-- An object is a value. -/
theorem grammar (o : Object) : Grammar .value o.tokens := by
  rcases o with ⟨openGap, members, closeGap⟩
  cases members with
  | empty => exact .emptyObject openGap closeGap
  | cons first rest => exact .object openGap closeGap (Member.grammar_cons first rest)

end Object

end JsonSyntax
end Lib
end Aivcs
