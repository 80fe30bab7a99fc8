import Aivcs.Lib.Decimal
import Aivcs.Lib.TextSearch
import Aivcs.Lib.Utf8Lossy

/-!
# Repo.Response — what is relayed of aivcsd's answer (`aivcs-repo/src/main.rs`)

The answer is read as text, and its body is what stands between the first blank line and the next.

* `relayed_iff` — an answer is relayed intact exactly when there is no blank line in its body.
-/

namespace Aivcs
namespace Repo

open Aivcs.Lib

def crlf : List Char :=
  ['\r', '\n']

/-- `split_whitespace`. -/
def splitWhitespace (cs : List Char) : List (List Char) :=
  (cs.splitOnP isWhitespace).filter fun piece => piece ≠ []

def parseResponse (raw : Bytes) : Except String (UInt16 × String) :=
  let text := fromUtf8Lossy raw
  let statusLine := (splitText crlf text.length text).head?.getD []
  match (splitWhitespace statusLine)[1]?.bind parseU16 with
  | none => .error "no status code"
  | some status => .ok (status, String.ofList ((splitText (crlf ++ crlf) text.length text)[1]?.getD []))

/-! ## Responses of the service -/

def reasonPhrase (status : UInt16) : String :=
  match status.toNat with
  | 200 => "OK"
  | 201 => "Created"
  | 400 => "Bad Request"
  | 401 => "Unauthorized"
  | 404 => "Not Found"
  | 409 => "Conflict"
  | 413 => "Payload Too Large"
  | 422 => "Unprocessable Content"
  | 502 => "Bad Gateway"
  | 503 => "Service Unavailable"
  | _ => "Internal Server Error"

/-- What is written to the caller. -/
def respond (status : UInt16) (body : String) : String :=
  "HTTP/1.1 " ++ toString status.toNat ++ " " ++ reasonPhrase status ++
    "\r\nContent-Type: application/json\r\nContent-Length: " ++ toString body.utf8ByteSize ++
    "\r\nConnection: close\r\n\r\n" ++ body

def trim (s : String) : String :=
  String.ofList (trimBoth isWhitespace s.toList)

/-- The end of `create_repository`: what the caller is sent when aivcsd answers, or cannot be reached. -/
def createRepository (answer : Except String Bytes) : String :=
  match answer.bind parseResponse with
  | .ok (status, body) => respond status (trim body)
  -- `respond_error`: there is nothing to escape in the message.
  | .error _ => respond 502 "\x7b\"error\":\"could not reach aivcsd\"\x7d"

/-! ## Responses of aivcsd -/

/-- A byte of a header's name. -/
def isTokenByte (b : UInt8) : Bool :=
  (0x30 ≤ b && b ≤ 0x39) || (0x41 ≤ b && b ≤ 0x5A) || (0x61 ≤ b && b ≤ 0x7A) ||
    b ∈ utf8 "!#$%&'*+-.^_|~" || b = 0x60

/-- A byte of a header's value or of the reason: a tab, a space, or one that is no control character. -/
def isFieldByte (b : UInt8) : Bool :=
  b = 0x09 || (0x20 ≤ b && b ≠ 0x7F)

def httpVersion : List Char :=
  ['H', 'T', 'T', 'P', '/', '1', '.', '1']

structure Header where
  name : Bytes
  value : Bytes
  name_ne_nil : name ≠ []
  name_token : ∀ b ∈ name, isTokenByte b = true
  value_field : ∀ b ∈ value, isFieldByte b = true

def Header.bytes (h : Header) : Bytes :=
  h.name ++ 0x3A :: h.value

/-- The header that says how many bytes the body has. -/
def Header.Frames (h : Header) (length : Nat) : Prop :=
  (∃ name, h.name = utf8 name ∧ asciiLower name = "content-length") ∧
    ∃ value ds, h.value = utf8 value ∧ trimBoth isWhitespace value.toList = ds ∧ Numeral ds ∧
      decimal ds = length

/-- A response message whose body is framed by its length. -/
structure Message where
  code : List Char
  reason : Bytes
  headers : List Header
  body : String
  code_length : code.length = 3
  code_digits : Digits code
  reason_field : ∀ b ∈ reason, isFieldByte b = true
  framed : ∃ h ∈ headers, h.Frames (utf8 body).length

namespace Message

def status (m : Message) : UInt16 :=
  UInt16.ofNat (decimal m.code)

/-- The status line and the header lines. -/
def lines (m : Message) : List Bytes :=
  (utf8 (String.ofList (httpVersion ++ ' ' :: (m.code ++ [' ']))) ++ m.reason) :: m.headers.map Header.bytes

/-- The message as it is sent. -/
def bytes (m : Message) : Bytes :=
  (m.lines.flatMap fun line => line ++ [13, 10]) ++ 13 :: 10 :: utf8 m.body

/-- The code and the body are read from the message, and sent on without the whitespace around them. -/
def Relayed (m : Message) : Prop :=
  parseResponse m.bytes = .ok (m.status, m.body) ∧
    createRepository (.ok m.bytes) = respond m.status (trim m.body)

end Message

/-! ## Reading a message -/

/-- A line that is not blank. -/
structure IsLine (cs : List Char) : Prop where
  ne_nil : cs ≠ []
  cr : '\r' ∉ cs
  lf : '\n' ∉ cs

/-- After a line that is not the last, the search goes on with the next. -/
theorem dropInfix?_crlf_cons {c : Char} (hc : c ≠ '\r') (cs : List Char) :
    ('\r' :: '\n' :: c :: cs).dropInfix? (crlf ++ crlf) =
      ((c :: cs).dropInfix? (crlf ++ crlf)).map fun p => ('\r' :: '\n' :: p.1, p.2) := by
  have hcr : ¬ crlf ++ crlf <+: '\r' :: '\n' :: c :: cs := by
    intro h
    have hpre : ['\r', '\n'] <+: c :: cs := (List.prefix_append_right_inj crlf).1 h
    exact hc (List.cons_prefix_cons.1 hpre).1.symm
  have hlf : ¬ crlf ++ crlf <+: '\n' :: c :: cs := fun h => absurd (List.cons_prefix_cons.1 h).1 (by decide)
  rw [dropInfix?_cons hcr, dropInfix?_cons hlf, Option.map_map]
  rfl

/-- The first blank line ends the lines. -/
theorem dropInfix?_lines {lines : List (List Char)} (hne : lines ≠ []) (hlines : ∀ l ∈ lines, IsLine l)
    (body : List Char) :
    ∃ front, ((lines.flatMap fun l => l ++ crlf) ++ (crlf ++ body)).dropInfix? (crlf ++ crlf) =
      some (front, body) := by
  induction lines with
  | nil =>
      exact absurd rfl hne
  | cons l lines ih =>
      rw [List.forall_mem_cons] at hlines
      rw [List.flatMap_cons, List.append_assoc, List.append_assoc]
      -- There is no blank line within a line: the search goes on at its end.
      have hskip := fun cs => dropInfix?_append hlines.1.cr ['\n', '\r', '\n'] cs
      cases lines with
      | nil =>
          refine ⟨l ++ [], (hskip _).trans ?_⟩
          exact congrArg (Option.map fun p => (l ++ p.1, p.2)) (dropInfix?_append_self (crlf ++ crlf) body)
      | cons l' lines =>
          rcases ih (List.cons_ne_nil _ _) hlines.2 with ⟨front, hfront⟩
          have hl' := hlines.2 l' List.mem_cons_self
          rcases List.exists_cons_of_ne_nil hl'.ne_nil with ⟨c, rest, hc⟩
          have hcr : c ≠ '\r' := fun heq => hl'.cr (by rw [hc, heq]; exact List.mem_cons_self)
          refine ⟨l ++ '\r' :: '\n' :: front, (hskip _).trans ?_⟩
          rw [List.flatMap_cons, hc] at hfront ⊢
          have hnext := dropInfix?_crlf_cons hcr
            (rest ++ crlf ++ (lines.flatMap fun l => l ++ crlf) ++ (crlf ++ body))
          have hrest : (c :: (rest ++ crlf ++ (lines.flatMap fun l => l ++ crlf) ++ (crlf ++ body))).dropInfix?
              (crlf ++ crlf) = some (front, body) := hfront
          rw [hrest] at hnext
          exact congrArg (Option.map fun p => (l ++ p.1, p.2)) hnext

/-- The text of lines ends where the line does. -/
theorem fromUtf8Lossy_lines (lines : List Bytes) (rest : Bytes) :
    fromUtf8Lossy ((lines.flatMap fun line => line ++ [13, 10]) ++ rest) =
      ((lines.map fromUtf8Lossy).flatMap fun l => l ++ crlf) ++ fromUtf8Lossy rest := by
  have hcrlf : ∀ rest : Bytes, fromUtf8Lossy (13 :: 10 :: rest) = crlf ++ fromUtf8Lossy rest := fun rest =>
    fromUtf8Lossy_utf8_append crlf rest
  induction lines with
  | nil =>
      rfl
  | cons line lines ih =>
      simp only [List.flatMap_cons, List.map_cons, List.append_assoc, List.cons_append, List.nil_append]
      rw [fromUtf8Lossy_append (by decide), hcrlf, ih]

section Messages

variable {bs : Bytes}

/-- Bytes of one line are read as one line. -/
theorem isLine_fromUtf8Lossy (hne : fromUtf8Lossy bs ≠ []) (hcr : (13 : UInt8) ∉ bs)
    (hlf : (10 : UInt8) ∉ bs) : IsLine (fromUtf8Lossy bs) where
  ne_nil := hne
  cr h := hcr (mem_of_mem_fromUtf8Lossy (c := '\r') (by decide) h)
  lf h := hlf (mem_of_mem_fromUtf8Lossy (c := '\n') (by decide) h)

theorem not_mem_of_isFieldByte {bs : Bytes} (h : ∀ b ∈ bs, isFieldByte b = true) :
    (13 : UInt8) ∉ bs ∧ (10 : UInt8) ∉ bs :=
  ⟨fun hmem => absurd (h _ hmem) (by decide), fun hmem => absurd (h _ hmem) (by decide)⟩

theorem Header.isLine (h : Header) : IsLine (fromUtf8Lossy h.bytes) := by
  have hvalue := not_mem_of_isFieldByte h.value_field
  have hname : ∀ b ∈ h.name, b ≠ 13 ∧ b ≠ 10 := by
    intro b hb
    have htoken := h.name_token b hb
    constructor
    · rintro rfl
      exact absurd htoken (by decide)
    · rintro rfl
      exact absurd htoken (by decide)
  refine isLine_fromUtf8Lossy ?_ ?_ ?_
  · rw [Header.bytes, fromUtf8Lossy_append (by decide)]
    have hcolon : fromUtf8Lossy (0x3A :: h.value) = ':' :: fromUtf8Lossy h.value :=
      fromUtf8Lossy_utf8_append [':'] h.value
    simp [hcolon]
  · simp only [Header.bytes, List.mem_append, List.mem_cons, not_or]
    exact ⟨fun hmem => (hname _ hmem).1 rfl, by decide, hvalue.1⟩
  · simp only [Header.bytes, List.mem_append, List.mem_cons, not_or]
    exact ⟨fun hmem => (hname _ hmem).2 rfl, by decide, hvalue.2⟩

variable (m : Message)

/-- The status line as it is read. -/
def Message.statusLine : List Char :=
  httpVersion ++ ' ' :: (m.code ++ ' ' :: fromUtf8Lossy m.reason)

theorem Message.statusLine_eq : fromUtf8Lossy
    (utf8 (String.ofList (httpVersion ++ ' ' :: (m.code ++ [' ']))) ++ m.reason) = m.statusLine := by
  rw [fromUtf8Lossy_utf8_append, Message.statusLine]
  simp

theorem Message.not_mem_statusLine {c : Char} (hc : c.toNat < 128) (hversion : c ∉ httpVersion)
    (hspace : c ≠ ' ') (hdigit : c.isDigit = false) (hreason : UInt8.ofNat c.toNat ∉ m.reason) :
    c ∉ m.statusLine := by
  simp only [Message.statusLine, List.mem_append, List.mem_cons, not_or]
  refine ⟨hversion, hspace, fun h => ?_, hspace, fun h => hreason (mem_of_mem_fromUtf8Lossy hc h)⟩
  exact absurd (m.code_digits c h) (Bool.eq_false_iff.1 hdigit)

theorem Message.isLine_statusLine : IsLine m.statusLine := by
  have hreason := not_mem_of_isFieldByte m.reason_field
  constructor
  · simp [Message.statusLine]
  · exact m.not_mem_statusLine (by decide) (by decide) (by decide) (by decide) hreason.1
  · exact m.not_mem_statusLine (by decide) (by decide) (by decide) (by decide) hreason.2

/-- The text of the message. -/
def Message.text : List Char :=
  ((m.statusLine :: m.headers.map fun h => fromUtf8Lossy h.bytes).flatMap fun l => l ++ crlf) ++
    (crlf ++ m.body.toList)

theorem Message.fromUtf8Lossy_bytes : fromUtf8Lossy m.bytes = m.text := by
  have hbody : fromUtf8Lossy (13 :: 10 :: utf8 m.body) = crlf ++ m.body.toList := by
    have h := fromUtf8Lossy_utf8_append (crlf ++ m.body.toList) []
    rw [List.append_nil, fromUtf8Lossy_nil, List.append_nil, String.ofList_append, utf8_append,
      String.ofList_toList] at h
    exact h
  rw [Message.bytes, fromUtf8Lossy_lines, Message.lines, List.map_cons, List.map_map, m.statusLine_eq, hbody,
    Message.text]
  rfl

theorem Message.code_ne_nil : m.code ≠ [] :=
  List.ne_nil_of_length_pos (by rw [m.code_length]; decide)

/-- The second word of the status line is the code. -/
theorem Message.splitWhitespace_statusLine : (splitWhitespace m.statusLine)[1]? = some m.code := by
  have hspace : isWhitespace ' ' = true := by decide
  have hversion : ∀ c ∈ httpVersion, isWhitespace c = false := fun c hc =>
    Bool.eq_false_iff.2 fun h => absurd (List.mem_filter.2 ⟨hc, h⟩) (by simp [httpVersion, isWhitespace])
  have hcode : ∀ c ∈ m.code, isWhitespace c = false := fun c hc => isWhitespace_of_isDigit (m.code_digits c hc)
  rw [splitWhitespace, Message.statusLine, List.splitOnP_append_cons_of_forall_mem hversion _ hspace,
    List.splitOnP_append_cons_of_forall_mem hcode _ hspace]
  simp [m.code_ne_nil, httpVersion]

theorem Message.parseU16_code : parseU16 m.code = some m.status := by
  have hlt : decimal m.code < 10 ^ 3 := m.code_length ▸ decimal_lt m.code_digits
  rw [parseU16_of_digits m.code_digits, if_pos ⟨m.code_ne_nil, by omega⟩, Message.status]

/-- The code is read, and of the body what comes before its first blank line. -/
theorem parseResponse_bytes : ∃ n, m.body.toList.length ≤ n ∧
    parseResponse m.bytes =
      .ok (m.status, String.ofList ((splitText (crlf ++ crlf) n m.body.toList).head?.getD [])) := by
  have hlines : ∀ l ∈ m.statusLine :: m.headers.map fun h => fromUtf8Lossy h.bytes, IsLine l := by
    rw [List.forall_mem_cons]
    refine ⟨m.isLine_statusLine, fun l hl => ?_⟩
    rcases List.mem_map.1 hl with ⟨h, _, rfl⟩
    exact h.isLine
  rcases dropInfix?_lines (List.cons_ne_nil _ _) hlines m.body.toList with ⟨front, hblank⟩
  have hlength : m.body.toList.length < m.text.length := by
    simp only [Message.text, crlf, List.length_append, List.length_cons]
    omega
  obtain ⟨n, hn⟩ : ∃ n, m.text.length = n + 1 := Nat.exists_eq_succ_of_ne_zero (Nat.ne_zero_of_lt hlength)
  refine ⟨n, by omega, ?_⟩
  have hfirst : m.text.dropInfix? crlf = some (m.statusLine,
      ((m.headers.map fun h => fromUtf8Lossy h.bytes).flatMap fun l => l ++ crlf) ++ (crlf ++ m.body.toList)) := by
    rw [Message.text, List.flatMap_cons, List.append_assoc, List.append_assoc]
    refine (dropInfix?_append m.isLine_statusLine.cr ['\n'] _).trans ?_
    exact (congrArg (Option.map _) (dropInfix?_append_self crlf _)).trans (by simp)
  have hblank : m.text.dropInfix? (crlf ++ crlf) = some (front, m.body.toList) := hblank
  have hstatus : (splitText crlf m.text.length m.text).head?.getD [] = m.statusLine := by
    rw [hn, splitText_of_some n hfirst]
    rfl
  have hbody : (splitText (crlf ++ crlf) m.text.length m.text)[1]? =
      (splitText (crlf ++ crlf) n m.body.toList).head? := by
    rw [hn, splitText_of_some n hblank, List.getElem?_cons_succ, List.head?_eq_getElem?]
  simp only [parseResponse, m.fromUtf8Lossy_bytes, hstatus, hbody, m.splitWhitespace_statusLine,
    Option.bind_some, m.parseU16_code]

/-- What follows a blank line of the body is lost. -/
theorem Message.Relayed.not_infix {m : Message} (h : m.Relayed) : ¬ crlf ++ crlf <:+: m.body.toList := by
  rcases parseResponse_bytes m with ⟨n, hn, hparse⟩
  have hbody := h.1
  rw [hparse, Except.ok.injEq, Prod.mk.injEq] at hbody
  refine (getD_head?_splitText_eq_self_iff (by decide) hn).1 ?_
  calc _ = (String.ofList ((splitText (crlf ++ crlf) n m.body.toList).head?.getD [])).toList :=
        String.toList_ofList.symm
    _ = m.body.toList := congrArg String.toList hbody.2

end Messages

/-- An upstream response is relayed intact exactly when there is no blank line in its body. -/
theorem relayed_iff (m : Message) : m.Relayed ↔ ¬ crlf ++ crlf <:+: m.body.toList := by
  constructor
  · intro h
    exact h.not_infix
  · intro h
    rcases parseResponse_bytes m with ⟨n, hn, hparse⟩
    rw [(getD_head?_splitText_eq_self_iff (by decide) hn).2 h, String.ofList_toList] at hparse
    refine ⟨hparse, ?_⟩
    simp only [createRepository, Except.bind, hparse]

/-- A JSON array with a blank line in it. -/
def blankLineMessage : Message where
  code := ['2', '0', '0']
  reason := utf8 "OK"
  headers := [{ name := utf8 "Content-Length", value := utf8 " 6", name_ne_nil := by decide,
                name_token := List.all_eq_true.1 (by decide), value_field := List.all_eq_true.1 (by decide) }]
  body := "[\r\n\r\n]"
  code_length := rfl
  code_digits := by decide
  reason_field := List.all_eq_true.1 (by decide)
  framed := ⟨_, List.mem_singleton.2 rfl, ⟨"Content-Length", rfl, by decide⟩, " 6", ['6'], rfl, by decide,
    by decide, by decide⟩

theorem not_relayed_blankLineMessage : ¬ blankLineMessage.Relayed := fun h =>
  h.not_infix ⟨['['], [']'], by decide⟩

end Repo
end Aivcs
