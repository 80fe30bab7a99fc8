import Aivcs.Lib.Bytes

/-!
# Json — JSON values, their compact encoding and a parser

`render` is the compact writer (no white space, members in the order given); `parse` reads a
document back.  Numbers are integers: a literal with a fraction or an exponent is refused.

* `parseValue_render` — a rendered value followed by a delimiter is read back exactly;
* `parse_render` — the round trip for whole documents;
* `render_injective` — a document determines its value;
* `le_of_mem_render` — a rendered document has no control byte, so it fits on one line.
-/

namespace Aivcs
namespace Lib

inductive Json where
  | null
  | bool (b : Bool)
  | num (n : Int)
  | str (s : String)
  | arr (xs : List Json)
  | obj (members : List (String × Json))

namespace Json

/-! ## Writing -/

/-- The lower-case ASCII byte of a hexadecimal digit. -/
def hexByte (d : Nat) : UInt8 :=
  UInt8.ofNat (if d < 10 then 48 + d else 87 + d)

/-- How a byte of a text is written inside quotes. -/
def escapeByte (b : UInt8) : Bytes :=
  -- The quote, the backslash and five control characters have short escapes.
  if b = 34 then [92, 34]
  else if b = 92 then [92, 92]
  else if b = 8 then [92, 98]
  else if b = 9 then [92, 116]
  else if b = 10 then [92, 110]
  else if b = 12 then [92, 102]
  else if b = 13 then [92, 114]
  -- The others are written as \u00xx; bytes of longer characters stand for themselves.
  else if b < 32 then [92, 117, 48, 48, hexByte (b.toNat / 16), hexByte (b.toNat % 16)]
  else [b]

def renderStr (s : String) : Bytes :=
  34 :: ((utf8 s).flatMap escapeByte ++ [34])

def renderInt : Int → Bytes
  | .ofNat n => digitBytes 10 n
  | .negSucc n => 45 :: digitBytes 10 (n + 1)

mutual

def render : Json → Bytes
  | .null => [110, 117, 108, 108]
  | .bool true => [116, 114, 117, 101]
  | .bool false => [102, 97, 108, 115, 101]
  | .num n => renderInt n
  | .str s => renderStr s
  | .arr [] => [91, 93]
  | .arr (x :: xs) => 91 :: (render x ++ renderElems xs)
  | .obj [] => [123, 125]
  | .obj ((k, v) :: ms) => 123 :: (renderStr k ++ 58 :: (render v ++ renderMembers ms))

/-- The elements after the first, up to the closing bracket. -/
def renderElems : List Json → Bytes
  | [] => [93]
  | x :: xs => 44 :: (render x ++ renderElems xs)

/-- The members after the first, up to the closing brace. -/
def renderMembers : List (String × Json) → Bytes
  | [] => [125]
  | (k, v) :: ms => 44 :: (renderStr k ++ 58 :: (render v ++ renderMembers ms))

end

/-! ## Reading members -/

/-- The member under a key; the last one wins where a key is repeated. -/
def field? (k : String) : Json → Option Json
  | .obj members => members.reverse.lookup k
  | _ => none

def asStr? : Json → Option String
  | .str s => some s
  | _ => none

/-! ## Parsing -/

def isWs (b : UInt8) : Bool :=
  b = 32 || b = 9 || b = 10 || b = 13

def skipWs (bs : Bytes) : Bytes :=
  bs.dropWhile isWs

def hexVal (b : UInt8) : Option Nat :=
  if 48 ≤ b ∧ b ≤ 57 then some (b.toNat - 48)
  else if 97 ≤ b ∧ b ≤ 102 then some (b.toNat - 87)
  else if 65 ≤ b ∧ b ≤ 70 then some (b.toNat - 55)
  else none

def hex4 (a b c d : UInt8) : Option Nat := do
  let a ← hexVal a
  let b ← hexVal b
  let c ← hexVal c
  let d ← hexVal d
  some (((a * 16 + b) * 16 + c) * 16 + d)

/-- The bytes an escape stands for; the input starts after the backslash. -/
def unescape : Bytes → Option (Bytes × Bytes)
  | 34 :: r => some ([34], r)
  | 92 :: r => some ([92], r)
  | 47 :: r => some ([47], r)
  | 98 :: r => some ([8], r)
  | 102 :: r => some ([12], r)
  | 110 :: r => some ([10], r)
  | 114 :: r => some ([13], r)
  | 116 :: r => some ([9], r)
  | 117 :: a :: b :: c :: d :: r => do
      let n ← hex4 a b c d
      if 0xDC00 ≤ n ∧ n ≤ 0xDFFF then
        none
      else if 0xD800 ≤ n ∧ n ≤ 0xDBFF then
        -- A leading surrogate must be followed by a trailing one.
        match r with
        | 92 :: 117 :: e :: f :: g :: h :: r' => do
            let m ← hex4 e f g h
            if 0xDC00 ≤ m ∧ m ≤ 0xDFFF then
              some (String.utf8EncodeChar
                (Char.ofNat (0x10000 + (n - 0xD800) * 0x400 + (m - 0xDC00))), r')
            else
              none
        | _ => none
      else
        some (String.utf8EncodeChar (Char.ofNat n), r)
  | _ => none

/-- The decoded bytes of a text up to its closing quote. -/
def parseStr : Nat → Bytes → Option (Bytes × Bytes)
  | 0, _ => none
  | _ + 1, [] => none
  | n + 1, b :: r =>
      if b = 34 then
        some ([], r)
      else if b = 92 then do
        let (cs, r₁) ← unescape r
        let (bs, r₂) ← parseStr n r₁
        some (cs ++ bs, r₂)
      -- A control character must be escaped.
      else if b < 32 then
        none
      else do
        let (bs, r₁) ← parseStr n r
        some (b :: bs, r₁)

def parseText (r : Bytes) : Option (String × Bytes) := do
  let (bs, r₁) ← parseStr (r.length + 1) r
  let s ← ofUtf8? bs
  some (s, r₁)

/-- A digit run without a superfluous leading zero, not continued as a fraction or an exponent. -/
def parseNat (bs : Bytes) : Option (Nat × Bytes) :=
  let ds := bs.takeWhile isDigit
  let r := bs.dropWhile isDigit
  if ds = [] then none
  else if ds.length ≠ 1 ∧ ds.head? = some 48 then none
  else if r.head? = some 46 ∨ r.head? = some 101 ∨ r.head? = some 69 then none
  else some (readNat 10 ds, r)

mutual

def parseValue : Nat → Bytes → Option (Json × Bytes)
  | 0, _ => none
  | n + 1, bs =>
      match skipWs bs with
      | [] => none
      | b :: r =>
          if b = 110 then
            if r.take 3 = [117, 108, 108] then some (.null, r.drop 3) else none
          else if b = 116 then
            if r.take 3 = [114, 117, 101] then some (.bool true, r.drop 3) else none
          else if b = 102 then
            if r.take 4 = [97, 108, 115, 101] then some (.bool false, r.drop 4) else none
          else if b = 34 then
            (parseText r).map fun p => (.str p.1, p.2)
          else if b = 91 then
            match skipWs r with
            | 93 :: r' => some (.arr [], r')
            | _ => do
                let (x, r₁) ← parseValue n r
                let (xs, r₂) ← parseElems n r₁
                some (.arr (x :: xs), r₂)
          else if b = 123 then
            match skipWs r with
            | 125 :: r' => some (.obj [], r')
            | _ => do
                let (m, r₁) ← parseMember n r
                let (ms, r₂) ← parseMembers n r₁
                some (.obj (m :: ms), r₂)
          else if b = 45 then do
            let (m, r₁) ← parseNat r
            -- A negative zero is a floating-point number.
            if m = 0 then none else some (.num (-m), r₁)
          else do
            let (m, r₁) ← parseNat (b :: r)
            some (.num m, r₁)

def parseElems : Nat → Bytes → Option (List Json × Bytes)
  | 0, _ => none
  | n + 1, bs =>
      match skipWs bs with
      | 93 :: r => some ([], r)
      | 44 :: r => do
          let (x, r₁) ← parseValue n r
          let (xs, r₂) ← parseElems n r₁
          some (x :: xs, r₂)
      | _ => none

def parseMembers : Nat → Bytes → Option (List (String × Json) × Bytes)
  | 0, _ => none
  | n + 1, bs =>
      match skipWs bs with
      | 125 :: r => some ([], r)
      | 44 :: r => do
          let (m, r₁) ← parseMember n r
          let (ms, r₂) ← parseMembers n r₁
          some (m :: ms, r₂)
      | _ => none

def parseMember : Nat → Bytes → Option ((String × Json) × Bytes)
  | 0, _ => none
  | n + 1, bs =>
      match skipWs bs with
      | 34 :: r => do
          let (k, r₁) ← parseText r
          match skipWs r₁ with
          | 58 :: r₂ => do
              let (v, r₃) ← parseValue n r₂
              some ((k, v), r₃)
          | _ => none
      | _ => none

end

/-- Read a whole document. -/
def parse (bs : Bytes) : Option Json := do
  let (v, r) ← parseValue (bs.length + 1) bs
  if skipWs r = [] then some v else none

/-! ## Round trip of texts -/

theorem hex4_control : ∀ n < 32,
    hex4 48 48 (hexByte (n / 16)) (hexByte (n % 16)) = some n ∧
      String.utf8EncodeChar (Char.ofNat n) = [UInt8.ofNat n] := by
  decide

theorem unescape_control {b : UInt8} (hb : b < 32) (r : Bytes) :
    unescape (117 :: 48 :: 48 :: hexByte (b.toNat / 16) :: hexByte (b.toNat % 16) :: r) =
      some ([b], r) := by
  have hn : b.toNat < 32 := by simpa using UInt8.lt_iff_toNat_lt.1 hb
  rcases hex4_control b.toNat hn with ⟨hhex, hchar⟩
  have hlow : ¬ 0xDC00 ≤ b.toNat := by omega
  have hhigh : ¬ 0xD800 ≤ b.toNat := by omega
  simp [unescape, hhex, hchar, hlow, hhigh]

theorem parseStr_escapeByte (b : UInt8) (n : Nat) (r : Bytes) :
    parseStr (n + 1) (escapeByte b ++ r) = (parseStr n r).map fun p => (b :: p.1, p.2) := by
  unfold escapeByte
  split_ifs with h34 h92 h8 h9 h10 h12 h13 h32
  · subst h34
    cases h : parseStr n r <;> simp [parseStr, unescape, h]
  · subst h92
    cases h : parseStr n r <;> simp [parseStr, unescape, h]
  · subst h8
    cases h : parseStr n r <;> simp [parseStr, unescape, h]
  · subst h9
    cases h : parseStr n r <;> simp [parseStr, unescape, h]
  · subst h10
    cases h : parseStr n r <;> simp [parseStr, unescape, h]
  · subst h12
    cases h : parseStr n r <;> simp [parseStr, unescape, h]
  · subst h13
    cases h : parseStr n r <;> simp [parseStr, unescape, h]
  · -- The remaining control characters, and then the bytes that are not escaped.
    cases h : parseStr n r <;> simp [parseStr, unescape_control h32, h]
  · cases h : parseStr n r <;> simp [parseStr, h34, h92, h32, h]

theorem parseStr_escaped :
    ∀ (bs : Bytes) (n : Nat) (r : Bytes), bs.length < n →
      parseStr n (bs.flatMap escapeByte ++ 34 :: r) = some (bs, r)
  | [], n + 1, r, _ => by
      simp [parseStr]
  | b :: bs, n + 1, r, h => by
      have ih := parseStr_escaped bs n r (by simpa using h)
      simp [parseStr_escapeByte, ih]

theorem length_le_flatMap_escapeByte :
    ∀ bs : Bytes, bs.length ≤ (bs.flatMap escapeByte).length
  | [] => by
      simp
  | b :: bs => by
      have ih := length_le_flatMap_escapeByte bs
      have hb : 1 ≤ (escapeByte b).length := by
        unfold escapeByte
        split_ifs <;> simp
      simp only [List.flatMap_cons, List.length_append, List.length_cons]
      omega

theorem parseText_escaped (s : String) (r : Bytes) :
    parseText ((utf8 s).flatMap escapeByte ++ 34 :: r) = some (s, r) := by
  have hlen := length_le_flatMap_escapeByte (utf8 s)
  have hstr := parseStr_escaped (utf8 s)
    (((utf8 s).flatMap escapeByte ++ 34 :: r).length + 1) r
    (by simp only [List.length_append, List.length_cons]; omega)
  simp only [parseText, hstr]
  simp

/-! ## Round trip of numbers -/

/-- What may follow a value: the end, a comma or a closing bracket. -/
def Delimited (r : Bytes) : Prop :=
  ∀ b, r.head? = some b → b = 44 ∨ b = 93 ∨ b = 125

theorem Delimited.nil : Delimited [] := by
  intro b hb
  cases hb

theorem Delimited.cons {b : UInt8} (hb : b = 44 ∨ b = 93 ∨ b = 125) (r : Bytes) :
    Delimited (b :: r) := by
  intro b' hb'
  cases hb'
  exact hb

theorem isDigit_of_mem_digitBytes {n : Nat} {x : UInt8} (hx : x ∈ digitBytes 10 n) :
    isDigit x = true := by
  rcases mem_digitBytes (by omega) n hx with ⟨d, hd, rfl⟩
  exact isDigit_digitByte hd

theorem takeWhile_digits {ds r : Bytes} (hds : ∀ x ∈ ds, isDigit x = true) (hr : Delimited r) :
    (ds ++ r).takeWhile isDigit = ds ∧ (ds ++ r).dropWhile isDigit = r := by
  have hhead : r.takeWhile isDigit = [] ∧ r.dropWhile isDigit = r := by
    cases r with
    | nil =>
        simp
    | cons b r =>
        have hb : isDigit b = false := by
          rcases hr b rfl with rfl | rfl | rfl <;> decide
        simp [hb]
  constructor
  · rw [List.takeWhile_append_of_pos hds, hhead.1, List.append_nil]
  · rw [List.dropWhile_append_of_pos hds, hhead.2]

/-- A numeral of more than one digit does not start with a zero. -/
theorem head?_digitBytes_ne_zero {n : Nat} (h : (digitBytes 10 n).length ≠ 1) :
    (digitBytes 10 n).head? ≠ some 48 := by
  have hn : n ≠ 0 := by
    rintro rfl
    simp [digitBytes] at h
  have hne : Nat.digits 10 n ≠ [] := Nat.digits_ne_nil_iff_ne_zero.2 hn
  -- The first byte is the last digit of `Nat.digits`, which is never zero.
  have hlast := Nat.getLast_digit_ne_zero 10 hn
  have hlt : (Nat.digits 10 n).getLast hne < 10 :=
    Nat.digits_lt_base (by omega) (List.getLast_mem hne)
  intro hhead
  have hbyte : digitByte ((Nat.digits 10 n).getLast hne) = 48 := by
    simpa [digitBytes, hn, List.head?_reverse, List.getLast?_eq_getLast_of_ne_nil hne] using hhead
  have hval := digitVal_digitByte hlt
  rw [hbyte] at hval
  exact hlast (by simpa [digitVal] using hval.symm)

theorem parseNat_digitBytes (n : Nat) {r : Bytes} (hr : Delimited r) :
    parseNat (digitBytes 10 n ++ r) = some (n, r) := by
  rcases takeWhile_digits (fun x hx => isDigit_of_mem_digitBytes (n := n) hx) hr with ⟨htake, hdrop⟩
  have hzero : ¬ ((digitBytes 10 n).length ≠ 1 ∧ (digitBytes 10 n).head? = some 48) := by
    rintro ⟨hlen, hhead⟩
    exact head?_digitBytes_ne_zero hlen hhead
  -- A delimiter does not continue the numeral as a fraction or an exponent.
  have hfrac : ¬ (r.head? = some 46 ∨ r.head? = some 101 ∨ r.head? = some 69) := by
    rintro (h | h | h)
    · rcases hr _ h with h' | h' | h' <;> exact absurd h' (by decide)
    · rcases hr _ h with h' | h' | h' <;> exact absurd h' (by decide)
    · rcases hr _ h with h' | h' | h' <;> exact absurd h' (by decide)
  simp only [parseNat, htake, hdrop, if_neg (digitBytes_ne_nil n), if_neg hzero, if_neg hfrac]
  rw [readNat_digitBytes (by omega) (by omega)]

/-! ## Round trip of values -/

theorem digitBytes_head (n : Nat) : ∃ b t, digitBytes 10 n = b :: t ∧ isDigit b = true := by
  cases h : digitBytes 10 n with
  | nil =>
      exact absurd h (digitBytes_ne_nil n)
  | cons b t =>
      exact ⟨b, t, rfl, isDigit_of_mem_digitBytes (n := n) (by simp [h])⟩

theorem digit_ne {b : UInt8} (h : isDigit b = true) :
    isWs b = false ∧ b ≠ 93 ∧ b ≠ 110 ∧ b ≠ 116 ∧ b ≠ 102 ∧ b ≠ 34 ∧ b ≠ 91 ∧ b ≠ 123 ∧
      b ≠ 45 := by
  refine ⟨?_, ?_⟩
  · cases hws : isWs b with
    | false =>
        rfl
    | true =>
        simp only [isWs, Bool.or_eq_true, decide_eq_true_eq] at hws
        rcases hws with ((rfl | rfl) | rfl) | rfl <;> exact absurd h (by decide)
  · refine ⟨?_, ?_, ?_, ?_, ?_, ?_, ?_, ?_⟩ <;> (rintro rfl; exact absurd h (by decide))

/-- A rendered value starts with a byte that is neither white space nor a closing bracket. -/
theorem render_head (v : Json) : ∃ b t, render v = b :: t ∧ isWs b = false ∧ b ≠ 93 := by
  cases v with
  | null =>
      exact ⟨_, _, by rw [render], by decide, by decide⟩
  | bool b =>
      cases b with
      | true =>
          exact ⟨_, _, by rw [render], by decide, by decide⟩
      | false =>
          exact ⟨_, _, by rw [render], by decide, by decide⟩
  | num n =>
      cases n with
      | ofNat n =>
          rcases digitBytes_head n with ⟨b, t, hbt, hd⟩
          exact ⟨b, t, by rw [render, renderInt, hbt], (digit_ne hd).1, (digit_ne hd).2.1⟩
      | negSucc n =>
          exact ⟨_, _, by rw [render, renderInt], by decide, by decide⟩
  | str s =>
      exact ⟨_, _, by rw [render, renderStr], by decide, by decide⟩
  | arr xs =>
      cases xs with
      | nil =>
          exact ⟨_, _, by rw [render], by decide, by decide⟩
      | cons x xs =>
          exact ⟨_, _, by rw [render], by decide, by decide⟩
  | obj ms =>
      cases ms with
      | nil =>
          exact ⟨_, _, by rw [render], by decide, by decide⟩
      | cons m ms =>
          exact ⟨_, _, by rw [render], by decide, by decide⟩

theorem skipWs_cons {b : UInt8} (hb : isWs b = false) (t : Bytes) : skipWs (b :: t) = b :: t := by
  simp [skipWs, hb]

theorem skipWs_render (v : Json) (r : Bytes) : skipWs (render v ++ r) = render v ++ r := by
  rcases render_head v with ⟨b, t, hbt, hws, _⟩
  rw [hbt, List.cons_append, skipWs_cons hws]

theorem delimited_renderElems (xs : List Json) (r : Bytes) : Delimited (renderElems xs ++ r) := by
  cases xs with
  | nil =>
      exact Delimited.cons (by decide) _
  | cons x xs =>
      exact Delimited.cons (by decide) _

theorem delimited_renderMembers (ms : List (String × Json)) (r : Bytes) :
    Delimited (renderMembers ms ++ r) := by
  cases ms with
  | nil =>
      exact Delimited.cons (by decide) _
  | cons m ms =>
      exact Delimited.cons (by decide) _

theorem parseValue_num (n : Nat) (i : Int) {r : Bytes} (hr : Delimited r) :
    parseValue (n + 1) (renderInt i ++ r) = some (.num i, r) := by
  cases i with
  | ofNat m =>
      rcases digitBytes_head m with ⟨b, t, hbt, hd⟩
      rcases digit_ne hd with ⟨hws, -, h110, h116, h102, h34, h91, h123, h45⟩
      have hnat := parseNat_digitBytes m hr
      rw [hbt, List.cons_append] at hnat
      simp only [renderInt, hbt, List.cons_append, parseValue, skipWs_cons hws, h110, h116, h102,
        h34, h91, h123, h45, if_false, hnat]
      rfl
  | negSucc m =>
      have hnat := parseNat_digitBytes (m + 1) hr
      have hws : isWs 45 = false := by decide
      simp only [renderInt, List.cons_append, parseValue, skipWs_cons hws]
      simp [hnat, Int.negSucc_eq]

-- The induction is on the value; the fuel only has to cover the bytes still to be read, so each
-- part of a container gets the fuel of the whole less the opening bracket.
mutual

theorem parseValue_render :
    ∀ (v : Json) (n : Nat) (r : Bytes), (render v).length ≤ n → Delimited r →
      parseValue n (render v ++ r) = some (v, r)
  | v, 0, r, hn, _ => by
      rcases render_head v with ⟨b, t, hbt, -⟩
      simp [hbt] at hn
  | .null, n + 1, r, _, _ => by
      simp [render, parseValue, skipWs, isWs]
  | .bool true, n + 1, r, _, _ => by
      simp [render, parseValue, skipWs, isWs]
  | .bool false, n + 1, r, _, _ => by
      simp [render, parseValue, skipWs, isWs]
  | .num i, n + 1, r, _, hr => by
      rw [render]
      exact parseValue_num n i hr
  | .str s, n + 1, r, _, _ => by
      have hws : isWs 34 = false := by decide
      simp only [render, renderStr, List.cons_append, List.append_assoc, List.nil_append,
        parseValue, skipWs_cons hws, parseText_escaped]
      simp
  | .arr [], n + 1, r, _, _ => by
      simp [render, parseValue, skipWs, isWs]
  | .arr (x :: xs), n + 1, r, hn, _ => by
      have hws : isWs 91 = false := by decide
      simp only [render, List.length_cons, List.length_append] at hn
      have hx := parseValue_render x n (renderElems xs ++ r) (by omega)
        (delimited_renderElems xs r)
      have hxs := parseElems_render xs n r (by omega)
      have hskip := skipWs_render x (renderElems xs ++ r)
      -- The first element does not start with the bracket that would end the array.
      rcases render_head x with ⟨b, t, hbt, -, h93⟩
      simp only [render, List.cons_append, List.append_assoc, parseValue, skipWs_cons hws]
      rw [hskip, hx]
      simp [hbt, h93, hxs]
  | .obj [], n + 1, r, _, _ => by
      simp [render, parseValue, skipWs, isWs]
  | .obj ((k, v) :: ms), n + 1, r, hn, _ => by
      have hws : isWs 123 = false := by decide
      have hws' : isWs 34 = false := by decide
      simp only [render, List.length_cons, List.length_append] at hn
      have hm := parseMember_render k v n (renderMembers ms ++ r) (by simp; omega)
        (delimited_renderMembers ms r)
      have hms := parseMembers_render ms n r (by omega)
      simp only [List.append_assoc, List.cons_append] at hm
      simp only [render, List.cons_append, List.append_assoc, parseValue, skipWs_cons hws, hm]
      simp [renderStr, skipWs_cons hws', hms]

theorem parseElems_render :
    ∀ (xs : List Json) (n : Nat) (r : Bytes), (renderElems xs).length ≤ n →
      parseElems n (renderElems xs ++ r) = some (xs, r)
  | [], 0, r, hn => by
      simp [renderElems] at hn
  | _ :: _, 0, r, hn => by
      simp [renderElems] at hn
  | [], n + 1, r, _ => by
      simp [renderElems, parseElems, skipWs, isWs]
  | x :: xs, n + 1, r, hn => by
      have hws : isWs 44 = false := by decide
      simp only [renderElems, List.length_cons, List.length_append] at hn
      have hx := parseValue_render x n (renderElems xs ++ r) (by omega)
        (delimited_renderElems xs r)
      have hxs := parseElems_render xs n r (by omega)
      simp only [renderElems, List.cons_append, List.append_assoc, parseElems, skipWs_cons hws, hx]
      simp [hxs]

theorem parseMembers_render :
    ∀ (ms : List (String × Json)) (n : Nat) (r : Bytes), (renderMembers ms).length ≤ n →
      parseMembers n (renderMembers ms ++ r) = some (ms, r)
  | [], 0, r, hn => by
      simp [renderMembers] at hn
  | _ :: _, 0, r, hn => by
      simp [renderMembers] at hn
  | [], n + 1, r, _ => by
      simp [renderMembers, parseMembers, skipWs, isWs]
  | (k, v) :: ms, n + 1, r, hn => by
      have hws : isWs 44 = false := by decide
      simp only [renderMembers, List.length_cons, List.length_append] at hn
      have hm := parseMember_render k v n (renderMembers ms ++ r) (by simp; omega)
        (delimited_renderMembers ms r)
      have hms := parseMembers_render ms n r (by omega)
      simp only [List.append_assoc, List.cons_append] at hm
      simp only [renderMembers, List.cons_append, List.append_assoc, parseMembers,
        skipWs_cons hws, hm]
      simp [hms]

theorem parseMember_render :
    ∀ (k : String) (v : Json) (n : Nat) (r : Bytes),
      (renderStr k ++ 58 :: render v).length ≤ n → Delimited r →
        parseMember n ((renderStr k ++ 58 :: render v) ++ r) = some ((k, v), r)
  | k, v, 0, r, hn, _ => by
      simp at hn
  | k, v, n + 1, r, hn, hr => by
      have hws : isWs 34 = false := by decide
      have hws' : isWs 58 = false := by decide
      simp only [List.length_append, List.length_cons] at hn
      have hv := parseValue_render v n r (by omega) hr
      simp only [renderStr, List.cons_append, List.append_assoc, List.nil_append, parseMember,
        skipWs_cons hws, parseText_escaped]
      simp [skipWs_cons hws', hv]

end

/-- A rendered document is read back as the value it was rendered from. -/
theorem parse_render (v : Json) : parse (render v) = some v := by
  have h := parseValue_render v ((render v).length + 1) [] (by omega) Delimited.nil
  rw [List.append_nil] at h
  simp [parse, h, skipWs]

theorem render_injective : Function.Injective render := by
  intro v w h
  have hv := parse_render v
  rw [h, parse_render w] at hv
  exact (Option.some.inj hv).symm

/-! ## Rendered documents fit on one line -/

theorem le_of_mem_escapeByte {b x : UInt8} (hx : x ∈ escapeByte b) : 32 ≤ x := by
  -- The two hexadecimal digits of a control character are printable.
  have hhex : ∀ d < 16, 32 ≤ hexByte d := by decide
  have hlt := b.toNat_lt
  unfold escapeByte at hx
  split_ifs at hx with h34 h92 h8 h9 h10 h12 h13 h32
  all_goals simp only [List.mem_cons, List.not_mem_nil, or_false] at hx
  · rcases hx with rfl | rfl <;> decide
  · rcases hx with rfl | rfl <;> decide
  · rcases hx with rfl | rfl <;> decide
  · rcases hx with rfl | rfl <;> decide
  · rcases hx with rfl | rfl <;> decide
  · rcases hx with rfl | rfl <;> decide
  · rcases hx with rfl | rfl <;> decide
  · rcases hx with rfl | rfl | rfl | rfl | rfl | rfl
    · decide
    · decide
    · decide
    · decide
    · exact hhex _ (by omega)
    · exact hhex _ (by omega)
  · subst hx
    exact UInt8.not_lt.1 h32

theorem le_of_mem_renderStr {s : String} {x : UInt8} (hx : x ∈ renderStr s) : 32 ≤ x := by
  simp only [renderStr, List.mem_cons, List.mem_append, List.mem_flatMap, List.not_mem_nil,
    or_false] at hx
  rcases hx with rfl | ⟨b, _, hb⟩ | rfl
  · decide
  · exact le_of_mem_escapeByte hb
  · decide

theorem le_of_mem_renderInt {n : Int} {x : UInt8} (hx : x ∈ renderInt n) : 32 ≤ x := by
  have hdigit : ∀ {m : Nat} {y : UInt8}, y ∈ digitBytes 10 m → 32 ≤ y := by
    intro m y hy
    have h := isDigit_of_mem_digitBytes hy
    simp only [isDigit, Bool.and_eq_true, decide_eq_true_eq] at h
    exact UInt8.le_trans (by decide) h.1
  cases n with
  | ofNat m =>
      exact hdigit hx
  | negSucc m =>
      simp only [renderInt, List.mem_cons] at hx
      rcases hx with rfl | hx
      · decide
      · exact hdigit hx

mutual

theorem le_of_mem_render : ∀ (v : Json) {x : UInt8}, x ∈ render v → 32 ≤ x
  | .null, x, hx => by
      revert x
      simp [render]
  | .bool true, x, hx => by
      revert x
      simp [render]
  | .bool false, x, hx => by
      revert x
      simp [render]
  | .num n, x, hx => by
      rw [render] at hx
      exact le_of_mem_renderInt hx
  | .str s, x, hx => by
      rw [render] at hx
      exact le_of_mem_renderStr hx
  | .arr [], x, hx => by
      revert x
      simp [render]
  | .arr (v :: xs), x, hx => by
      simp only [render, List.mem_cons, List.mem_append] at hx
      rcases hx with rfl | hx | hx
      · decide
      · exact le_of_mem_render v hx
      · exact le_of_mem_renderElems xs hx
  | .obj [], x, hx => by
      revert x
      simp [render]
  | .obj ((k, v) :: ms), x, hx => by
      simp only [render, List.mem_cons, List.mem_append] at hx
      rcases hx with rfl | hx | rfl | hx | hx
      · decide
      · exact le_of_mem_renderStr hx
      · decide
      · exact le_of_mem_render v hx
      · exact le_of_mem_renderMembers ms hx

theorem le_of_mem_renderElems : ∀ (xs : List Json) {x : UInt8}, x ∈ renderElems xs → 32 ≤ x
  | [], x, hx => by
      revert x
      simp [renderElems]
  | v :: xs, x, hx => by
      simp only [renderElems, List.mem_cons, List.mem_append] at hx
      rcases hx with rfl | hx | hx
      · decide
      · exact le_of_mem_render v hx
      · exact le_of_mem_renderElems xs hx

theorem le_of_mem_renderMembers :
    ∀ (ms : List (String × Json)) {x : UInt8}, x ∈ renderMembers ms → 32 ≤ x
  | [], x, hx => by
      revert x
      simp [renderMembers]
  | (k, v) :: ms, x, hx => by
      simp only [renderMembers, List.mem_cons, List.mem_append] at hx
      rcases hx with rfl | hx | rfl | hx | hx
      · decide
      · exact le_of_mem_renderStr hx
      · decide
      · exact le_of_mem_render v hx
      · exact le_of_mem_renderMembers ms hx

end

/-- No newline occurs inside a rendered document. -/
theorem newline_not_mem_render (v : Json) : (10 : UInt8) ∉ render v := by
  intro h
  exact absurd (le_of_mem_render v h) (by decide)

end Json

end Lib
end Aivcs
