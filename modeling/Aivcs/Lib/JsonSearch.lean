import Aivcs.Lib.JsonSyntax

/-!
# JsonSearch — keys and braces that are looked for in the text of a document

To look for the first `"key"` is not to look for a member: any string is found that is written as the key, at
any depth and on either side of a colon, and any whose text ends in an escaped quote and the key.  To find
where an object ends by counting braces counts those of its strings with the others.

* `afterKey_render` — the first string that shows the key is the one that is found;
* `nests_append` — the depth after two texts is the depth of the second from that of the first.
-/

namespace Aivcs
namespace Lib
namespace JsonSyntax

/-- The text that is looked for. -/
def quoted (k : List Char) : List Char :=
  '"' :: (k ++ ['"'])

/-- The text after the first occurrence. -/
def afterKey (k cs : List Char) : Option (List Char) :=
  (cs.dropInfix? (quoted k)).map Prod.snd

/-- The tokens after the first string that shows the key, and the whitespace before them. -/
def afterName (k : List Char) : List Token → Option (Gap × List Token)
  | [] => none
  | .string s g :: ts => if s.Shows k then some (g, ts) else afterName k ts
  | _ :: ts => afterName k ts

/-- A name of letters and digits. -/
structure IsKey (k : List Char) : Prop where
  ne_nil : k ≠ []
  alphanum : k.all Char.isAlphanum = true

section Characters

variable {k : List Char} {c : Char}

theorem IsKey.of_mem (hk : IsKey k) (hc : c ∈ k) : c.isAlphanum = true :=
  List.all_eq_true.1 hk.alphanum c hc

theorem IsKey.quote (hk : IsKey k) : '"' ∉ k := fun h => absurd (hk.of_mem h) (by decide)

theorem IsKey.backslash (hk : IsKey k) : '\\' ∉ k := fun h => absurd (hk.of_mem h) (by decide)

/-- Characters that stand for themselves in a string differ from those that do not. -/
theorem ne_of_isPlain {d : Char} (hc : isPlain c = true) (hd : isPlain d = false) : c ≠ d := by
  rintro rfl
  exact Bool.noConfusion (hd.symm.trans hc)

theorem isGap_cases (h : isGap c = true) : c = ' ' ∨ c = '\t' ∨ c = '\n' ∨ c = '\r' := by
  simpa [isGap, or_assoc] using h

/-- The characters of literals. -/
def isLiteralChar (c : Char) : Bool :=
  c.isAlphanum || c = '-' || c = '+' || c = '.'

theorem isLiteralChar_of_isDigit (h : c.isDigit = true) : isLiteralChar c = true := by
  simp [isLiteralChar, Char.isAlphanum, h]

theorem Exponent.isLiteralChar_of_mem {e : Exponent} (hc : c ∈ e.text) : isLiteralChar c = true := by
  have hdigits : ∀ c ∈ e.digits, isLiteralChar c = true := fun c hc => isLiteralChar_of_isDigit (e.numeral.2 c hc)
  have hsigned : ∀ sign, isLiteralChar sign = true → c ∈ sign :: e.digits → isLiteralChar c = true := by
    intro sign hsign hmem
    rcases List.mem_cons.1 hmem with rfl | hmem
    · exact hsign
    · exact hdigits c hmem
  rcases List.mem_cons.1 hc with rfl | hc
  · split <;> decide
  · match hsign : e.sign, hc with
    | none, hc => exact hdigits c hc
    | some true, hc => exact hsigned '+' (by decide) hc
    | some false, hc => exact hsigned '-' (by decide) hc

theorem Number.isLiteralChar_of_mem {n : Number} (hc : c ∈ n.text) : isLiteralChar c = true := by
  rw [Number.text, Number.tail, List.mem_append, List.mem_append, List.mem_append] at hc
  rcases hc with hc | hc | hc | hc
  · split at hc
    · rw [List.mem_singleton.1 hc]
      decide
    · cases hc
  · exact isLiteralChar_of_isDigit (n.int_numeral.2 c hc)
  · cases hfraction : n.fraction with
    | none =>
        rw [hfraction] at hc
        cases hc
    | some ds =>
        rw [hfraction] at hc
        rcases List.mem_cons.1 hc with rfl | hc
        · decide
        · exact isLiteralChar_of_isDigit ((n.fraction_numeral ds hfraction).2 c hc)
  · cases hexponent : n.exponent with
    | none =>
        rw [hexponent] at hc
        cases hc
    | some e =>
        rw [hexponent] at hc
        exact e.isLiteralChar_of_mem hc

theorem Literal.isLiteralChar_of_mem {l : Literal} (hc : c ∈ l.text) : isLiteralChar c = true := by
  have hword : ∀ cs : List Char, cs.all isLiteralChar = true → c ∈ cs → isLiteralChar c = true :=
    fun cs hcs hmem => List.all_eq_true.1 hcs c hmem
  match l, hc with
  | .null, hc => exact hword ['n', 'u', 'l', 'l'] (by decide) hc
  | .bool true, hc => exact hword ['t', 'r', 'u', 'e'] (by decide) hc
  | .bool false, hc => exact hword ['f', 'a', 'l', 's', 'e'] (by decide) hc
  | .number n, hc => exact n.isLiteralChar_of_mem hc

theorem Literal.text_ne_nil (l : Literal) : l.text ≠ [] := by
  match l with
  | .null => exact List.cons_ne_nil _ _
  | .bool true => exact List.cons_ne_nil _ _
  | .bool false => exact List.cons_ne_nil _ _
  | .number n =>
      intro h
      rw [Literal.text, Number.text, List.append_eq_nil_iff, List.append_eq_nil_iff] at h
      exact n.int_numeral.1 h.2.1

theorem Piece.quote_mem_text_iff {p : Piece} : '"' ∈ p.text ↔ p = .escape .quote := by
  cases p with
  | plain c =>
      have hc : c.1 ≠ '"' := ne_of_isPlain c.2 (by decide)
      exact iff_of_false (fun h => hc (List.mem_singleton.1 h).symm) nofun
  | escape e =>
      cases e <;> simp [Piece.text, Escape.letter]
  | code a b c d =>
      have hhex : ∀ x : HexDigit, '"' ≠ x.1 := fun x h => absurd (h ▸ x.2) (by decide)
      refine iff_of_false (fun h => ?_) nofun
      simp only [Piece.text, List.mem_cons, List.not_mem_nil, or_false] at h
      rcases h with h | h | h | h | h | h
      · cases h
      · cases h
      · exact hhex a h
      · exact hhex b h
      · exact hhex c h
      · exact hhex d h

end Characters

/-! ## One string -/

section Strings

variable {k rest : List Char}

theorem Str.text_cons (p : Piece) (s : Str) : Str.text (p :: s) = p.text ++ s.text :=
  List.flatMap_cons

theorem Str.text_plain_cons (c : {c : Char // isPlain c = true}) (s : Str) :
    Str.text (.plain c :: s) = c.1 :: Str.text s := rfl

/-- A key without a backslash is no part of a text that begins with one. -/
theorem prefix_backslash_iff (hbackslash : '\\' ∉ k) (cs cs' : List Char) :
    k ++ ['"'] <+: '\\' :: cs ↔ '\\' :: cs' = k := by
  refine iff_of_false (fun h => ?_) (fun h => hbackslash (h ▸ List.mem_cons_self))
  cases k with
  | nil =>
      exact absurd (List.cons_prefix_cons.1 h).1 (by decide)
  | cons c k =>
      exact hbackslash ((List.cons_prefix_cons.1 h).1 ▸ List.mem_cons_self)

/-- From the quote that opens a string, the key is found only if it is the string. -/
theorem Str.quoted_prefix_iff (hquote : '"' ∉ k) (hbackslash : '\\' ∉ k) (s : Str) :
    quoted k <+: '"' :: (Str.text s ++ '"' :: rest) ↔ Str.text s = k := by
  rw [quoted, List.cons_prefix_cons]
  simp only [true_and]
  induction s generalizing k with
  | nil =>
      cases k with
      | nil =>
          exact iff_of_true ⟨rest, rfl⟩ rfl
      | cons c k =>
          refine iff_of_false (fun h => ?_) nofun
          exact hquote ((List.cons_prefix_cons.1 h).1 ▸ List.mem_cons_self)
  | cons p s ih =>
      rw [Str.text_cons]
      cases p with
      | plain c =>
          cases k with
          | nil =>
              have hc : c.1 ≠ '"' := ne_of_isPlain c.2 (by decide)
              exact iff_of_false (fun h => hc (List.cons_prefix_cons.1 h).1.symm) nofun
          | cons d k =>
              rw [List.mem_cons, not_or] at hquote hbackslash
              calc d :: k ++ ['"'] <+: (Piece.plain c).text ++ Str.text s ++ '"' :: rest
                  ↔ d = c.1 ∧ k ++ ['"'] <+: Str.text s ++ '"' :: rest := List.cons_prefix_cons
                _ ↔ c.1 = d ∧ Str.text s = k := and_congr eq_comm (ih hquote.2 hbackslash.2)
                _ ↔ (Piece.plain c).text ++ Str.text s = d :: k := List.cons_eq_cons.symm
      -- Of a piece with an escape the backslash is enough.
      | escape e =>
          exact prefix_backslash_iff hbackslash _ _
      | code a b c d =>
          exact prefix_backslash_iff hbackslash _ _

theorem suffix_append_iff {α : Type} {c : α} {k xs ys : List α} (hc : c ∉ xs) :
    c :: k <:+ xs ++ ys ↔ c :: k <:+ ys := by
  constructor
  · rintro ⟨zs, hzs⟩
    rcases List.append_eq_append_iff.1 hzs with ⟨ws, hxs, hys⟩ | ⟨ws, hxs, hys⟩
    · cases ws with
      | nil =>
          exact ⟨[], by simpa using hys⟩
      | cons w ws =>
          have hw : c = w := (List.cons.inj hys).1
          exact absurd (by rw [hxs, hw]; simp) hc
    · exact ⟨ws, hys.symm⟩
  · intro h
    exact h.trans (List.suffix_append xs ys)

theorem afterKey_append {xs : List Char} (hxs : '"' ∉ xs) (cs : List Char) :
    afterKey k (xs ++ cs) = afterKey k cs := by
  rw [afterKey, quoted, dropInfix?_append hxs, Option.map_map]
  rfl

theorem afterKey_cons {c : Char} {cs : List Char} (h : ¬ quoted k <+: c :: cs) :
    afterKey k (c :: cs) = afterKey k cs := by
  rw [afterKey, dropInfix?_cons h, Option.map_map]
  rfl

theorem afterKey_self (k rest : List Char) : afterKey k ('"' :: (k ++ '"' :: rest)) = some rest := by
  have hquoted : '"' :: (k ++ '"' :: rest) = quoted k ++ rest := by
    simp [quoted]
  rw [afterKey, hquoted, dropInfix?_append_self]
  rfl

/-- Within a string, the key is found behind its last escaped quote or not at all. -/
theorem Str.afterKey_text (hk : IsKey k) (s : Str) (hrest : ¬ k ++ ['"'] <+: rest) :
    afterKey k (Str.text s ++ '"' :: rest) = if '"' :: k <:+ Str.text s then some rest else afterKey k rest := by
  induction s with
  | nil =>
      have hnot : ¬ quoted k <+: '"' :: rest := fun h => hrest (List.cons_prefix_cons.1 h).2
      rw [if_neg (by simp [Str.text])]
      exact afterKey_cons hnot
  | cons p s ih =>
      rw [Str.text_cons, List.append_assoc]
      -- Only an escaped quote brings a quote into the text, and only there can the search stop.
      by_cases hp : p = .escape .quote
      · have hbackslash : '"' ∉ ['\\'] := by decide
        have htext : ∀ cs, p.text ++ cs = ['\\'] ++ '"' :: cs := fun cs => by rw [hp]; rfl
        have hsuffix : '"' :: k <:+ p.text ++ Str.text s ↔ Str.text s = k ∨ '"' :: k <:+ Str.text s := by
          rw [htext, suffix_append_iff hbackslash, List.suffix_cons_iff, List.cons.injEq, eq_comm (a := k)]
          simp only [true_and]
        rw [htext, afterKey_append hbackslash]
        by_cases hs : Str.text s = k
        · rw [if_pos (hsuffix.2 (Or.inl hs)), hs, afterKey_self]
        · have hnot : ¬ quoted k <+: '"' :: (Str.text s ++ '"' :: rest) := fun h =>
            hs ((Str.quoted_prefix_iff hk.quote hk.backslash s).1 h)
          rw [afterKey_cons hnot, ih]
          exact if_congr (hsuffix.trans (or_iff_right hs)).symm rfl rfl
      · have hquote : '"' ∉ p.text := fun h => hp (Piece.quote_mem_text_iff.1 h)
        rw [afterKey_append hquote, ih]
        exact if_congr (suffix_append_iff hquote).symm rfl rfl

end Strings

/-! ## A document -/

section Documents

variable {k : List Char} {ts : List Token}

theorem render_cons (t : Token) (ts : List Token) : render (t :: ts) = t.text ++ render ts :=
  List.flatMap_cons

theorem not_mem_gap (g : Gap) {c : Char} (hc : isGap c = false) : c ∉ g.1 := fun h =>
  absurd (List.all_eq_true.1 g.2 c h) (Bool.eq_false_iff.1 hc)

/-- After a token that is no mark comes no letter and no digit. -/
theorem not_alphanum_of_chain {t : Token} (h : (t :: ts).IsChain Separated) (ht : ¬ t.IsMark) (g : Gap) :
    ∀ c ∈ (g.1 ++ render ts).head?, c.isAlphanum = false := by
  intro c hc
  rcases g with ⟨g, hgap⟩
  cases g with
  | cons d g =>
      rw [← Option.some.inj hc]
      rcases isGap_cases (List.all_eq_true.1 hgap d List.mem_cons_self) with rfl | rfl | rfl | rfl <;> decide
  | nil =>
      cases ts with
      | nil =>
          cases hc
      | cons u ts =>
          have hmark := (List.isChain_cons_cons.1 h).1.resolve_left ht
          cases u with
          | mark m g =>
              rw [← Option.some.inj hc]
              cases m <;> decide
          | literal l g => exact hmark.elim
          | string s g => exact hmark.elim

/-- Only strings have quotes. -/
theorem quote_not_mem_mark (m : Mark) (g : Gap) : '"' ∉ (Token.mark m g).text := by
  rw [Token.text, List.mem_cons, not_or]
  exact ⟨by cases m <;> decide, not_mem_gap g (by decide)⟩

theorem quote_not_mem_literal (l : Literal) (g : Gap) : '"' ∉ (Token.literal l g).text := by
  rw [Token.text, List.mem_append, not_or]
  exact ⟨fun h => absurd (Literal.isLiteralChar_of_mem h) (by decide), not_mem_gap g (by decide)⟩

/-- The quote that closes a string does not open the key. -/
theorem not_prefix_after_string (hk : IsKey k) {s : Str} {g : Gap}
    (hts : (Token.string s g :: ts).IsChain Separated) : ¬ k ++ ['"'] <+: g.1 ++ render ts := by
  rintro ⟨zs, hzs⟩
  rcases List.exists_cons_of_ne_nil hk.ne_nil with ⟨c, k', hk'⟩
  have halphanum := hk.of_mem (hk' ▸ List.mem_cons_self)
  refine absurd halphanum (Bool.eq_false_iff.1 (not_alphanum_of_chain hts id g c ?_))
  rw [← hzs, hk']
  rfl

/-- At a string that shows the key the search ends, and any other is passed over. -/
theorem afterKey_string (hk : IsKey k) {s : Str} {g : Gap}
    (hts : (Token.string s g :: ts).IsChain Separated) :
    afterKey k (render (.string s g :: ts)) =
      if s.Shows k then some (g.1 ++ render ts) else afterKey k (render ts) := by
  have htext : render (.string s g :: ts) = '"' :: (s.text ++ '"' :: (g.1 ++ render ts)) := by
    simp [render_cons, Token.text]
  rw [htext]
  by_cases hs : s.text = k
  · have hshows : Str.Shows k s := Or.inl hs
    rw [if_pos hshows, hs, afterKey_self]
  · have hnot : ¬ quoted k <+: '"' :: (s.text ++ '"' :: (g.1 ++ render ts)) := fun h =>
      hs ((s.quoted_prefix_iff hk.quote hk.backslash).1 h)
    have hshows : Str.Shows k s ↔ '"' :: k <:+ s.text := or_iff_right hs
    rw [afterKey_cons hnot, s.afterKey_text hk (not_prefix_after_string hk hts),
      afterKey_append (not_mem_gap g (by decide))]
    exact if_congr hshows.symm rfl rfl

/-- The first string that shows the key is the one that is found. -/
theorem afterKey_render (hk : IsKey k) (hts : ts.IsChain Separated) :
    afterKey k (render ts) = (afterName k ts).map fun (g, us) => g ++ render us := by
  induction ts with
  | nil =>
      have hnone : ([] : List Char).dropInfix? (quoted k) = none :=
        dropInfix?_eq_none_iff.2 fun h => absurd (List.infix_nil.1 h) (List.cons_ne_nil _ _)
      rw [render, List.flatMap_nil, afterKey, hnone]
      rfl
  | cons t ts ih =>
      have hrest := ih hts.tail
      cases t with
      | mark m g =>
          rw [render_cons, afterKey_append (quote_not_mem_mark m g), hrest]
          rfl
      | literal l g =>
          rw [render_cons, afterKey_append (quote_not_mem_literal l g), hrest]
          rfl
      | string s g =>
          rw [afterKey_string hk hts, afterName, hrest]
          split <;> rfl

/-- What follows the key is the end of the document. -/
theorem afterName_suffix {g : Gap} {us : List Token} (h : afterName k ts = some (g, us)) : us <:+ ts := by
  induction ts with
  | nil =>
      cases h
  | cons t ts ih =>
      cases t with
      | mark m g' =>
          exact (ih h).trans (List.suffix_cons _ _)
      | literal l g' =>
          exact (ih h).trans (List.suffix_cons _ _)
      | string s g' =>
          rw [afterName] at h
          split at h
          · cases h
            exact List.suffix_cons _ _
          · exact (ih h).trans (List.suffix_cons _ _)

end Documents

/-! ## Plain strings -/

section Plain

theorem Str.plain_cons {p : Piece} {s : Str} : Str.Plain (p :: s) ↔ p.isEscaped = false ∧ Str.Plain s := by
  simp [Str.Plain]

/-- A plain string has no quote in it. -/
theorem Str.upTo_of_plain {s : Str} (h : s.Plain) : upTo '"' s.text = s.text := by
  induction s with
  | nil =>
      rfl
  | cons p s ih =>
      rw [Str.plain_cons] at h
      cases p with
      | plain c =>
          have hc : c.1 ≠ '"' := ne_of_isPlain c.2 (by decide)
          rw [Str.text_plain_cons, upTo, List.takeWhile_cons_of_pos (by simpa using hc)]
          exact congrArg _ (ih h.2)
      | escape e => cases h.1
      | code a b c d => cases h.1

/-- Any other has a backslash before its first quote. -/
theorem Str.backslash_mem_upTo_iff {s : Str} : '\\' ∈ upTo '"' s.text ↔ ¬ s.Plain := by
  induction s with
  | nil =>
      exact iff_of_false List.not_mem_nil (not_not_intro rfl)
  | cons p s ih =>
      have hescaped : ∀ cs : List Char, '\\' ∈ upTo '"' ('\\' :: cs) := fun cs => by
        rw [upTo, List.takeWhile_cons_of_pos (by decide)]
        exact List.mem_cons_self
      rw [Str.plain_cons]
      cases p with
      | plain c =>
          have hc : c.1 ≠ '"' := ne_of_isPlain c.2 (by decide)
          have hc' : c.1 ≠ '\\' := ne_of_isPlain c.2 (by decide)
          rw [Str.text_plain_cons, upTo, List.takeWhile_cons_of_pos (by simpa using hc), List.mem_cons,
            or_iff_right (Ne.symm hc')]
          exact ih.trans (not_congr (and_iff_right rfl).symm)
      | escape e =>
          exact iff_of_true (hescaped _) fun h => Bool.noConfusion h.1
      | code a b c d =>
          exact iff_of_true (hescaped _) fun h => Bool.noConfusion h.1

theorem Str.exists_plain_cons {p : Piece} {s : Str} (h : Str.Plain (p :: s)) :
    ∃ c, p = .plain c ∧ Str.text (p :: s) = c.1 :: Str.text s ∧ Str.Plain s := by
  rw [Str.plain_cons] at h
  cases p with
  | plain c => exact ⟨c, rfl, rfl, h.2⟩
  | escape e => cases h.1
  | code a b c d => cases h.1

/-- A plain string is determined by its text. -/
theorem Str.eq_of_text_eq {s s' : Str} (h : s.Plain) (h' : s'.Plain) (heq : s.text = s'.text) : s = s' := by
  induction s generalizing s' with
  | nil =>
      cases s' with
      | nil => rfl
      | cons p s' =>
          rcases Str.exists_plain_cons h' with ⟨c, _, htext, _⟩
          cases heq.trans htext
  | cons p s ih =>
      rcases Str.exists_plain_cons h with ⟨c, rfl, htext, hs⟩
      cases s' with
      | nil => cases htext.symm.trans heq
      | cons p' s' =>
          rcases Str.exists_plain_cons h' with ⟨c', rfl, htext', hs'⟩
          rw [htext, htext', List.cons.injEq] at heq
          rw [Subtype.ext heq.1, ih hs hs' heq.2]

end Plain

/-! ## Counting braces -/

def openBrace : Char :=
  Char.ofNat 0x7B

def closeBrace : Char :=
  Char.ofNat 0x7D

/-- The depth after the text, where one brace was open for each of `d`; none once a brace is closed that was
not opened. -/
def nests (d : Nat) : List Char → Option Nat
  | [] => some d
  | c :: cs =>
      if c = openBrace then nests (d + 1) cs
      else if c = closeBrace then (if d = 0 then none else nests (d - 1) cs)
      else nests d cs

section Nesting

variable {d : Nat} {c : Char} {cs xs ys : List Char}

theorem nests_open (d : Nat) (cs : List Char) : nests d (openBrace :: cs) = nests (d + 1) cs := by
  rw [nests, if_pos rfl]

theorem nests_close_zero (cs : List Char) : nests 0 (closeBrace :: cs) = none := by
  rw [nests, if_neg (by decide), if_pos rfl, if_pos rfl]

theorem nests_close_succ (d : Nat) (cs : List Char) : nests (d + 1) (closeBrace :: cs) = nests d cs := by
  rw [nests, if_neg (by decide), if_pos rfl, if_neg (Nat.succ_ne_zero d), Nat.add_sub_cancel]

theorem nests_other (hopen : c ≠ openBrace) (hclose : c ≠ closeBrace) : nests d (c :: cs) = nests d cs := by
  rw [nests, if_neg hopen, if_neg hclose]

theorem nests_append : nests d (xs ++ ys) = (nests d xs).bind fun e => nests e ys := by
  induction xs generalizing d with
  | nil =>
      rfl
  | cons c xs ih =>
      by_cases hopen : c = openBrace
      · rw [hopen, List.cons_append, nests_open, nests_open, ih]
      · by_cases hclose : c = closeBrace
        · cases d with
          | zero => rw [hclose, List.cons_append, nests_close_zero, nests_close_zero, Option.bind_none]
          | succ d => rw [hclose, List.cons_append, nests_close_succ, nests_close_succ, ih]
        · rw [List.cons_append, nests_other hopen hclose, nests_other hopen hclose, ih]

/-- No character is a brace. -/
def NoBrace (cs : List Char) : Prop :=
  openBrace ∉ cs ∧ closeBrace ∉ cs

theorem NoBrace.nests (h : NoBrace cs) (d : Nat) : nests d cs = some d := by
  induction cs with
  | nil =>
      rfl
  | cons c cs ih =>
      rw [NoBrace, List.mem_cons, List.mem_cons, not_or, not_or] at h
      rw [nests_other (Ne.symm h.1.1) (Ne.symm h.2.1)]
      exact ih ⟨h.1.2, h.2.2⟩

theorem noBrace_gap (g : Gap) : NoBrace g.1 :=
  ⟨not_mem_gap g (by decide), not_mem_gap g (by decide)⟩

theorem NoBrace.cons (hopen : c ≠ openBrace) (hclose : c ≠ closeBrace) (h : NoBrace cs) : NoBrace (c :: cs) :=
  ⟨List.not_mem_cons_of_ne_of_not_mem hopen.symm h.1, List.not_mem_cons_of_ne_of_not_mem hclose.symm h.2⟩

/-- The marks that are no braces. -/
theorem noBrace_mark {m : Mark} (hopen : m ≠ .openObject) (hclose : m ≠ .closeObject) (g : Gap) :
    NoBrace (Token.mark m g).text := by
  refine NoBrace.cons ?_ ?_ (noBrace_gap g)
  · cases m <;> first | decide | exact absurd rfl hopen
  · cases m <;> first | decide | exact absurd rfl hclose

end Nesting

theorem render_append (ts us : List Token) : render (ts ++ us) = render ts ++ render us :=
  List.flatMap_append

end JsonSyntax
end Lib
end Aivcs
