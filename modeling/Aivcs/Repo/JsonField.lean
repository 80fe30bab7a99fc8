import Aivcs.Lib.JsonSearch

/-!
# Repo.JsonField — the value after a key (`aivcs-repo/src/main.rs`)

The service has no JSON parser: it looks for the first `"key"` in the text and reads what comes after a
colon.  `jsonStringField_render` and `jsonU16Field_render` say what that is in terms of the tokens.

The name in a create request is read so, after the first `"name"` of the body, wherever that stands;
`readsName_iff` says for which bodies it is the object's own member.
-/

namespace Aivcs
namespace Repo

open Aivcs.Lib
open Aivcs.Lib.JsonSyntax

def trimStart (cs : List Char) : List Char :=
  cs.dropWhile isWhitespace

/-- What follows the key and a colon. -/
def afterColon (object key : List Char) : Option (List Char) := do
  let afterKey ← afterKey key object
  ((trimStart afterKey).dropPrefix? [':']).map trimStart

def jsonStringField (object key : List Char) : Option (List Char) := do
  let rest ← (← afterColon object key).dropPrefix? ['"']
  (splitOnce '"' rest).map Prod.fst

def jsonU16Field (object key : List Char) : Option UInt16 := do
  parseU16 ((← afterColon object key).takeWhile Char.isDigit)

/-! ## On tokens -/

/-- The tokens after the first string that shows the key and a colon. -/
def tokensAfter (ts : List Token) (k : List Char) : Option (List Token) :=
  match afterName k ts with
  | some (_, .mark .colon _ :: us) => some us
  | _ => none

/-- The string that is first after the key. -/
def stringAfter (ts : List Token) (k : List Char) : Option Str :=
  match tokensAfter ts k with
  | some (.string s _ :: _) => some s
  | _ => none

/-- The number that is first after the key. -/
def numberAfter (ts : List Token) (k : List Char) : Option Number :=
  match tokensAfter ts k with
  | some (.literal (.number n) _ :: _) => some n
  | _ => none

section Heads

variable {c d : Char} {cs : List Char} {ts : List Token}

theorem dropPrefix?_cons_self (c : Char) (cs : List Char) : (c :: cs).dropPrefix? [c] = some cs :=
  dropPrefix?_iff.2 rfl

theorem dropPrefix?_eq_none (h : ∀ c ∈ cs.head?, c ≠ d) : cs.dropPrefix? [d] = none := by
  refine Option.eq_none_iff_forall_ne_some.2 fun rest hrest => ?_
  rw [dropPrefix?_iff.1 hrest] at h
  exact h d rfl rfl

/-- A literal begins with one of its characters. -/
theorem isLiteralChar_head (l : Literal) (rest : List Char) :
    ∀ c ∈ (l.text ++ rest).head?, isLiteralChar c = true := by
  intro c hc
  rcases List.exists_cons_of_ne_nil l.text_ne_nil with ⟨d, cs, hcs⟩
  rw [hcs, List.cons_append] at hc
  rw [← Option.some.inj hc]
  exact l.isLiteralChar_of_mem (hcs ▸ List.mem_cons_self)

theorem isWhitespace_of_isGap (h : isGap c = true) : isWhitespace c = true := by
  rcases isGap_cases h with rfl | rfl | rfl | rfl <;> decide

theorem isWhitespace_of_isLiteralChar (h : isLiteralChar c = true) : isWhitespace c = false := by
  have hcases : c.isAlphanum = true ∨ c = '-' ∨ c = '+' ∨ c = '.' := by
    simpa [isLiteralChar, or_assoc] using h
  rcases hcases with halpha | rfl | rfl | rfl
  · unfold Char.isAlphanum Char.isAlpha Char.isUpper Char.isLower Char.isDigit at halpha
    simp only [Bool.or_eq_true, Bool.and_eq_true, decide_eq_true_eq, ge_iff_le,
      UInt32.le_iff_toNat_le] at halpha
    have hval : c.toNat = c.val.toNat := rfl
    simp [isWhitespace]
    simp at halpha
    omega
  · decide
  · decide
  · decide

/-- No token begins with whitespace. -/
theorem isWhitespace_head (ts : List Token) : ∀ c ∈ (render ts).head?, isWhitespace c = false := by
  intro c hc
  cases ts with
  | nil =>
      cases hc
  | cons t ts =>
      rw [render_cons] at hc
      cases t with
      | mark m g =>
          rw [← Option.some.inj hc]
          cases m <;> decide
      | literal l g =>
          rw [Token.text, List.append_assoc] at hc
          exact isWhitespace_of_isLiteralChar (isLiteralChar_head l _ c hc)
      | string s g =>
          rw [← Option.some.inj hc]
          decide

theorem trimStart_gap (g : Gap) (ts : List Token) : trimStart (g ++ render ts) = render ts := by
  have hgap : ∀ c ∈ g.1, isWhitespace c = true := fun c hc =>
    isWhitespace_of_isGap (List.all_eq_true.1 g.2 c hc)
  rw [trimStart, List.dropWhile_append_of_pos hgap]
  cases hts : render ts with
  | nil =>
      rfl
  | cons c cs =>
      have hhead := isWhitespace_head ts c (by rw [hts]; rfl)
      exact List.dropWhile_cons_of_neg (Bool.eq_false_iff.1 hhead)

theorem dropPrefix?_colon (ts : List Token) : ((render ts).dropPrefix? [':']).map trimStart =
    match ts with
    | .mark .colon _ :: us => some (render us)
    | _ => none := by
  match ts with
  | [] =>
      rfl
  | .mark m g :: us =>
      rw [render_cons]
      cases m with
      | colon =>
          exact (congrArg _ (dropPrefix?_cons_self ':' _)).trans (congrArg some (trimStart_gap g us))
      | _ => rfl
  | .literal l g :: us =>
      rw [render_cons, Token.text, List.append_assoc,
        dropPrefix?_eq_none fun c hc heq => absurd (isLiteralChar_head l _ c hc) (heq ▸ by decide)]
      rfl
  | .string s g :: us =>
      rfl

theorem dropPrefix?_quote (ts : List Token) : (render ts).dropPrefix? ['"'] =
    match ts with
    | .string s g :: us => some (s.text ++ '"' :: (g ++ render us))
    | _ => none := by
  match ts with
  | [] =>
      rfl
  | .mark m g :: us =>
      rw [render_cons]
      cases m <;> rfl
  | .literal l g :: us =>
      rw [render_cons, Token.text, List.append_assoc,
        dropPrefix?_eq_none fun c hc heq => absurd (isLiteralChar_head l _ c hc) (heq ▸ by decide)]
  | .string s g :: us =>
      rw [render_cons]
      refine dropPrefix?_iff.2 ?_
      simp [Token.text]

end Heads

/-! ## What the readers find -/

section Readers

variable {k : List Char} {ts : List Token}

theorem splitOnce_upTo (xs rest : List Char) :
    (splitOnce '"' (xs ++ '"' :: rest)).map Prod.fst = some (upTo '"' xs) := by
  by_cases hquote : '"' ∈ xs
  · rcases List.eq_append_cons_of_mem hquote with ⟨ys, zs, rfl, hys⟩
    rw [List.append_assoc, List.cons_append, splitOnce_append hys, upTo_append hys]
    rfl
  · rw [splitOnce_append hquote, upTo_eq_self hquote]
    rfl

theorem tokensAfter_suffix {us : List Token} (h : tokensAfter ts k = some us) : us <:+ ts := by
  rw [tokensAfter] at h
  split at h
  · rename_i g g' us' hname
    cases h
    exact (List.suffix_cons _ _).trans (afterName_suffix hname)
  · cases h

theorem afterKey_gap_render (hk : IsKey k) (hts : ts.IsChain Separated) (g : Gap) :
    afterKey k (g ++ render ts) = (afterName k ts).map fun (g, us) => g ++ render us :=
  (afterKey_append (not_mem_gap g (by decide)) _).trans (afterKey_render hk hts)

theorem afterColon_render (hk : IsKey k) (hts : ts.IsChain Separated) (g : Gap) :
    afterColon (g ++ render ts) k = (tokensAfter ts k).map render := by
  rw [afterColon, afterKey_gap_render hk hts g, tokensAfter]
  cases afterName k ts with
  | none =>
      rfl
  | some p =>
      rcases p with ⟨g', us⟩
      simp only [Option.map_some, Option.bind_eq_bind, Option.bind_some, trimStart_gap, dropPrefix?_colon]
      cases us with
      | nil =>
          rfl
      | cons t us =>
          cases t with
          | mark m g => cases m <;> rfl
          | literal l g => rfl
          | string s g => rfl

theorem jsonStringField_render (hk : IsKey k) (hts : ts.IsChain Separated) (g : Gap) :
    jsonStringField (g ++ render ts) k = (stringAfter ts k).map fun s => upTo '"' s.text := by
  rw [jsonStringField, afterColon_render hk hts g, stringAfter]
  cases tokensAfter ts k with
  | none =>
      rfl
  | some us =>
      simp only [Option.map_some, Option.bind_eq_bind, Option.bind_some, dropPrefix?_quote]
      cases us with
      | nil =>
          rfl
      | cons t us =>
          cases t with
          | mark m g => rfl
          | literal l g => rfl
          -- The text goes up to its first quote, which may be an escaped one.
          | string s g => exact splitOnce_upTo s.text _

/-- What comes after the integer part of a number is no digit. -/
theorem not_digit_tail {n : Number} {g : Gap} (hts : (Token.literal (.number n) g :: ts).IsChain Separated) :
    ∀ c ∈ (n.tail ++ (g ++ render ts)).head?, c.isDigit = false := by
  intro c hc
  rw [Number.tail, List.append_assoc] at hc
  cases hfraction : n.fraction with
  | some ds =>
      rw [hfraction] at hc
      rw [← Option.some.inj hc]
      decide
  | none =>
      rw [hfraction] at hc
      cases hexponent : n.exponent with
      | some e =>
          rw [hexponent] at hc
          rw [← Option.some.inj hc]
          split <;> decide
      | none =>
          rw [hexponent] at hc
          have halphanum := not_alphanum_of_chain hts id g c hc
          rw [Char.isAlphanum, Bool.or_eq_false_iff] at halphanum
          exact halphanum.2

theorem takeWhile_number {n : Number} {g : Gap} (hts : (Token.literal (.number n) g :: ts).IsChain Separated) :
    (render (.literal (.number n) g :: ts)).takeWhile Char.isDigit = if n.minus then [] else n.int := by
  have htext : render (.literal (.number n) g :: ts) =
      (if n.minus then ['-'] else []) ++ (n.int ++ (n.tail ++ (g ++ render ts))) := by
    simp [render_cons, Token.text, Literal.text, Number.text]
  rw [htext]
  cases n.minus with
  -- A sign is no digit, so nothing is taken.
  | true =>
      rfl
  | false =>
      have htail : (n.tail ++ (g.1 ++ render ts)).takeWhile Char.isDigit = [] := by
        have hhead := not_digit_tail hts
        cases hrest : n.tail ++ (g.1 ++ render ts) with
        | nil => rfl
        | cons c cs =>
            rw [hrest] at hhead
            exact List.takeWhile_cons_of_neg (Bool.eq_false_iff.1 (hhead c rfl))
      calc (n.int ++ (n.tail ++ (g.1 ++ render ts))).takeWhile Char.isDigit
          = n.int ++ (n.tail ++ (g.1 ++ render ts)).takeWhile Char.isDigit :=
            List.takeWhile_append_of_pos n.int_numeral.2
        _ = n.int := by rw [htail, List.append_nil]

/-- A number without a sign is read up to its fraction or its exponent. -/
theorem jsonU16Field_render (hk : IsKey k) (hts : ts.IsChain Separated) (g : Gap) :
    jsonU16Field (g ++ render ts) k =
      (numberAfter ts k).bind fun n => if n.minus then none else parseU16 n.int := by
  rw [jsonU16Field, afterColon_render hk hts g, numberAfter]
  cases hafter : tokensAfter ts k with
  | none =>
      rfl
  | some us =>
      have hus : us.IsChain Separated := hts.suffix (tokensAfter_suffix hafter)
      simp only [Option.map_some, Option.bind_eq_bind, Option.bind_some]
      match us, hus with
      | [], _ => rfl
      | .mark m g :: us, _ => cases m <;> rfl
      | .literal .null g :: us, _ => rfl
      | .literal (.bool b) g :: us, _ => cases b <;> rfl
      | .literal (.number n) g :: us, hus =>
          rw [takeWhile_number hus]
          cases hminus : n.minus with
          | true =>
              have hempty : parseU16 [] = none := by decide
              simp [hminus, hempty]
          | false => simp [hminus]
      | .string s g :: us, _ => rfl

end Readers

/-! ## Create requests -/

def nameKey : List Char :=
  ['n', 'a', 'm', 'e']

def parseCreateRequest (body : Bytes) : Option String := do
  let text ← ofUtf8? body
  let name ← jsonStringField text.toList nameKey
  if '\\' ∈ name then none else some (String.ofList name)

/-- A body that is an object. -/
structure Body where
  gap : Gap
  object : Object

namespace Body

def bytes (b : Body) : Bytes :=
  utf8 (String.ofList (b.gap ++ render b.object.tokens))

/-- The string that is the object's own member `name`. -/
def ownName (b : Body) : Option Str :=
  match b.object.field nameKey with
  | some [.string s _] => some s
  | _ => none

/-- The string after a colon after the first string of the body that is written `name`, or ends in an
escaped quote and `name`. -/
def firstName (b : Body) : Option Str :=
  stringAfter b.object.tokens nameKey

/-- The object's own name is what the request is taken to say: all of it if it has no escapes, and nothing
if there is none. -/
def ReadsName (b : Body) : Prop :=
  (∀ s, b.ownName = some s → s.Plain → parseCreateRequest b.bytes = some (String.ofList s.text)) ∧
    (b.ownName = none → parseCreateRequest b.bytes = none)

/-- The first name is the object's own; if it has none, the first has escapes or there is none either. -/
def NameFirst (b : Body) : Prop :=
  (∀ s, b.ownName = some s → s.Plain → b.firstName = some s) ∧
    (b.ownName = none → ∀ s, b.firstName = some s → ¬ s.Plain)

/-- The first name is read, unless there are escapes in it. -/
theorem parseCreateRequest_bytes (b : Body) : parseCreateRequest b.bytes =
    b.firstName.bind fun s => if s.Plain then some (String.ofList s.text) else none := by
  have hkey : IsKey nameKey := ⟨by decide, by decide⟩
  rw [parseCreateRequest, bytes, ofUtf8?_utf8]
  simp only [Option.bind_eq_bind, Option.bind_some, String.toList_ofList]
  rw [jsonStringField_render hkey b.object.isChain_tokens, Option.bind_map]
  refine congrArg (Option.bind b.firstName) (funext fun s => ?_)
  by_cases hs : s.Plain
  · have hbackslash : '\\' ∉ upTo '"' s.text := fun h => Str.backslash_mem_upTo_iff.1 h hs
    rw [Function.comp_apply, if_neg hbackslash, if_pos hs, Str.upTo_of_plain hs]
  · rw [Function.comp_apply, if_pos (Str.backslash_mem_upTo_iff.2 hs), if_neg hs]

theorem parseCreateRequest_eq_some_iff {b : Body} {s : Str} (hs : s.Plain) :
    parseCreateRequest b.bytes = some (String.ofList s.text) ↔ b.firstName = some s := by
  rw [parseCreateRequest_bytes]
  constructor
  · intro h
    rcases Option.bind_eq_some_iff.1 h with ⟨s', hfirst, htext⟩
    by_cases hs' : s'.Plain
    · rw [if_pos hs', Option.some.injEq, String.ofList_inj] at htext
      rw [hfirst, Str.eq_of_text_eq hs' hs htext]
    · rw [if_neg hs'] at htext
      cases htext
  · intro h
    rw [h, Option.bind_some, if_pos hs]

theorem parseCreateRequest_eq_none_iff {b : Body} :
    parseCreateRequest b.bytes = none ↔ ∀ s, b.firstName = some s → ¬ s.Plain := by
  rw [parseCreateRequest_bytes, Option.bind_eq_none_iff]
  refine forall₂_congr fun s _ => ?_
  rw [ite_eq_right_iff]
  exact ⟨fun h hs => Option.some_ne_none _ (h hs), fun h hs => absurd hs h⟩

end Body

/-- Create requests are read as JSON exactly when the first name is the object's own. -/
theorem readsName_iff (b : Body) : b.ReadsName ↔ b.NameFirst := by
  refine and_congr (forall₂_congr fun s _ => forall_congr' fun hs => ?_) (imp_congr_right fun _ => ?_)
  · exact Body.parseCreateRequest_eq_some_iff hs
  · exact Body.parseCreateRequest_eq_none_iff

/-- An organisation with a name, before the name of the repository. -/
def nestedNameBody : Body where
  gap := ⟨[], all_isGap_nil⟩
  object :=
    let org := Object.compact [.text nameKey ['x']]
    .compact [.compact ['o', 'r', 'g'] org.tokens org.grammar, .text nameKey ['y']]

theorem not_readsName_nestedNameBody : ¬ nestedNameBody.ReadsName := by
  intro h
  have hplain : Str.Plain (.ofPlain ['y']) := by decide
  have hname := (Body.parseCreateRequest_eq_some_iff hplain).1 (h.1 _ rfl hplain)
  exact absurd hname (by decide)

end Repo
end Aivcs
