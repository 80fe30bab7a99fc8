import Mathlib.Data.List.DropRight
import Aivcs.Lib.Bytes

/-!
# Text — the string operations of the Rust standard library the code uses

On the list of characters where the operation is about characters, on the UTF-8 bytes where it
counts bytes.
-/

namespace Aivcs
namespace Lib

/-- Unicode `White_Space`, as `str::trim` uses it. -/
def isWhitespace (c : Char) : Bool :=
  (0x09 ≤ c.toNat && c.toNat ≤ 0x0D) || c.toNat = 0x20 || c.toNat = 0x85 || c.toNat = 0xA0 ||
    c.toNat = 0x1680 || (0x2000 ≤ c.toNat && c.toNat ≤ 0x200A) || c.toNat = 0x2028 ||
    c.toNat = 0x2029 || c.toNat = 0x202F || c.toNat = 0x205F || c.toNat = 0x3000

/-- Drop the characters with `p` from the end (`trim_end_matches`). -/
def trimEnd (p : Char → Bool) (cs : List Char) : List Char :=
  (cs.reverse.dropWhile p).reverse

/-- Drop the characters with `p` from both ends. -/
def trimBoth (p : Char → Bool) (cs : List Char) : List Char :=
  trimEnd p (cs.dropWhile p)

/-- Drop a text from the front as long as it is there (`trim_start_matches`); the first argument
bounds the number of times. -/
def dropRepeated (pat : List Char) : Nat → List Char → List Char
  | 0, cs => cs
  | n + 1, cs => if pat.isPrefixOf cs then dropRepeated pat n (cs.drop pat.length) else cs

/-- `to_ascii_lowercase`. -/
def asciiLower (s : String) : String :=
  String.ofList (s.toList.map Char.toLower)

/-- `&s[a..b]`: none where the slice would cut a character in two, which panics. -/
def slice? (s : String) (a b : Nat) : Option String :=
  ofUtf8? (((utf8 s).drop a).take (b - a))

/-- `split_once`: what comes before the first occurrence of the separator, and what after. -/
def splitOnce (sep : Char) : List Char → Option (List Char × List Char)
  | [] => none
  | c :: cs => if c = sep then some ([], cs) else (splitOnce sep cs).map fun (x, y) => (c :: x, y)

/-- `rsplit_once`: what comes before the last occurrence, and what after. -/
def rsplitOnce (sep : Char) (cs : List Char) : Option (List Char × List Char) :=
  (splitOnce sep cs.reverse).map fun (y, x) => (x.reverse, y.reverse)

/-- The text before the first separator. -/
def upTo (sep : Char) (cs : List Char) : List Char :=
  cs.takeWhile fun c => c ≠ sep

/-- The text after the last separator. -/
def afterLast (sep : Char) (cs : List Char) : List Char :=
  cs.rtakeWhile fun c => c ≠ sep

/-! ## Trimming -/

/-- Neither the first character nor the last has `p`. -/
structure Trimmed (p : Char → Bool) (cs : List Char) : Prop where
  head : ∀ c ∈ cs.head?, p c = false
  last : ∀ c ∈ cs.getLast?, p c = false

section Trim

variable {p : Char → Bool} {c : Char} {cs : List Char}

theorem trimEnd_isPrefix (p : Char → Bool) (cs : List Char) : trimEnd p cs <+: cs :=
  List.rdropWhile_prefix p cs

/-- The text is what is left after the trimming, and characters with `p`. -/
theorem exists_eq_trimEnd_append (p : Char → Bool) (cs : List Char) :
    ∃ rest, cs = trimEnd p cs ++ rest ∧ ∀ c ∈ rest, p c = true :=
  ⟨cs.rtakeWhile p, List.rdropWhile_append_rtakeWhile.symm, fun _ => List.mem_rtakeWhile_imp⟩

theorem trimEnd_append {y : List Char} (x : List Char) (h : trimEnd p y ≠ []) :
    trimEnd p (x ++ y) = x ++ trimEnd p y := by
  have hne : y.reverse.dropWhile p ≠ [] := fun hnil => h (by rw [trimEnd, hnil]; rfl)
  rw [trimEnd, trimEnd, List.reverse_append, List.dropWhile_append, if_neg (by simpa using hne)]
  simp

theorem trimBoth_sublist (p : Char → Bool) (cs : List Char) : (trimBoth p cs).Sublist cs :=
  (trimEnd_isPrefix p _).sublist.trans (List.dropWhile_suffix p).sublist

theorem trimBoth_cons_of_pos (hc : p c = true) : trimBoth p (c :: cs) = trimBoth p cs := by
  rw [trimBoth, trimBoth, List.dropWhile_cons_of_pos hc]

theorem trimEnd_last (p : Char → Bool) (cs : List Char) : ∀ c ∈ (trimEnd p cs).getLast?, p c = false := by
  intro c hc
  rcases List.getLast?_eq_some_iff.mp hc with ⟨front, hfront⟩
  have hne : cs.rdropWhile p ≠ [] := by
    intro hnil
    exact absurd (hfront.symm.trans hnil) (by simp)
  have hlast := List.rdropWhile_last_not p cs hne
  have hgetLast : (cs.rdropWhile p).getLast hne = c :=
    List.getLast_of_mem_getLast? hc
  rw [hgetLast] at hlast
  exact Bool.eq_false_iff.mpr hlast

theorem dropWhile_head (p : Char → Bool) (cs : List Char) : ∀ c ∈ (cs.dropWhile p).head?, p c = false := by
  intro c hc
  have hnot := List.head?_dropWhile_not p cs
  rw [Option.mem_def.mp hc] at hnot
  simpa using hnot

theorem trimmed_trimBoth (p : Char → Bool) (cs : List Char) : Trimmed p (trimBoth p cs) := by
  refine ⟨fun c hc => ?_, trimEnd_last p _⟩
  -- What is left of the text begins as it did before its end was trimmed.
  rcases trimEnd_isPrefix p (cs.dropWhile p) with ⟨rest, hrest⟩
  apply dropWhile_head p cs
  rw [← hrest]
  exact List.mem_head?_append_of_mem_head? hc

theorem Trimmed.trimBoth_eq (h : Trimmed p cs) : trimBoth p cs = cs := by
  have hhead : cs.dropWhile p = cs := by
    cases cs with
    | nil =>
        rfl
    | cons c cs =>
        exact List.dropWhile_cons_of_neg (by simpa using h.head c rfl)
  rw [trimBoth, hhead]
  exact List.rdropWhile_eq_self_iff.mpr fun hne =>
    Bool.eq_false_iff.mp (h.last _ (List.getLast?_eq_some_getLast hne))

theorem Trimmed.cons (h : Trimmed p cs) (hc : p c = false) : Trimmed p (c :: cs) := by
  refine ⟨fun d hd => ?_, fun d hd => ?_⟩
  · rw [← Option.some.inj hd]
    exact hc
  · cases cs with
    | nil =>
        rw [← Option.some.inj hd]
        exact hc
    | cons e cs =>
        rw [List.getLast?_cons_cons] at hd
        exact h.last d hd

end Trim

/-! ## Slices -/

/-- The first `i` bytes of the text are a text (`is_char_boundary`). -/
def CharBoundary (s : String) (i : Nat) : Prop :=
  ∃ front back : String, s = front ++ back ∧ (utf8 front).length = i

section Slices

variable {s : String}

theorem length_utf8 (s : String) : (utf8 s).length = s.utf8ByteSize := by
  simp [utf8]

theorem ofUtf8?_isSome_iff (bs : Bytes) :
    (ofUtf8? bs).isSome = true ↔ ByteArray.IsValidUTF8 ⟨bs.toArray⟩ := by
  unfold ofUtf8? String.fromUTF8?
  split <;> simp_all

theorem charBoundary_iff_isValid (s : String) (i : Nat) :
    CharBoundary s i ↔ String.Pos.Raw.IsValid s ⟨i⟩ := by
  rw [String.Pos.Raw.isValid_iff_exists_append]
  refine exists₂_congr fun front back => and_congr_right fun _ => ?_
  rw [length_utf8, String.Pos.Raw.ext_iff, String.byteIdx_rawEndPos, eq_comm]

/-- A slice that is not empty exists when both ends are at the boundary of a character. -/
theorem slice?_isSome_iff {a b : Nat} (hab : a < b) (hb : b ≤ (utf8 s).length) :
    (slice? s a b).isSome = true ↔ CharBoundary s a ∧ CharBoundary s b := by
  have hbytes : (⟨(((utf8 s).drop a).take (b - a)).toArray⟩ : ByteArray) = s.toByteArray.extract a b := by
    apply ByteArray.ext
    apply Array.toList_inj.1
    simp [utf8, List.extract_eq_take_drop]
  have hends : (⟨a⟩ : String.Pos.Raw) ≠ ⟨b⟩ := fun h =>
    Nat.ne_of_lt hab (congrArg String.Pos.Raw.byteIdx h)
  have hend : (⟨b⟩ : String.Pos.Raw) ≤ s.rawEndPos := by
    rw [length_utf8] at hb
    exact hb
  rw [slice?, ofUtf8?_isSome_iff, hbytes, charBoundary_iff_isValid, charBoundary_iff_isValid,
    String.Pos.Raw.isValidUTF8_extract_iff ⟨a⟩ ⟨b⟩ (Nat.le_of_lt hab) hend]
  exact or_iff_right hends

theorem utf8Size_toLower (c : Char) : c.toLower.utf8Size = c.utf8Size := by
  unfold Char.toLower
  split
  · rename_i h
    -- Both are ASCII.
    have hupper : c.utf8Size = 1 :=
      Char.utf8Size_eq_one_iff.mpr (UInt32.le_trans h.2 (by decide))
    rw [hupper, Char.utf8Size_eq_one_iff, UInt32.le_iff_toNat_le]
    have hval : c.toNat ≤ 90 := UInt32.le_iff_toNat_le.mp h.2
    calc (c.val + ('a'.val - 'A'.val)).toNat = (c.toNat + 32) % 2 ^ 32 := UInt32.toNat_add _ _
      _ ≤ 127 := by omega
  · rfl

theorem length_utf8_map_toLower (cs : List Char) :
    (utf8 (String.ofList (cs.map Char.toLower))).length = (utf8 (String.ofList cs)).length := by
  induction cs with
  | nil =>
      rfl
  | cons c cs ih =>
      rw [List.map_cons, String.ofList_cons, String.ofList_cons, utf8_append, utf8_append,
        List.length_append, List.length_append, ih]
      simp [length_utf8, utf8Size_toLower]

/-- Changing case changes no length and no boundary. -/
theorem length_utf8_asciiLower (s : String) : (utf8 (asciiLower s)).length = (utf8 s).length := by
  rw [asciiLower, length_utf8_map_toLower, String.ofList_toList]

theorem charBoundary_asciiLower (s : String) (i : Nat) :
    CharBoundary (asciiLower s) i ↔ CharBoundary s i := by
  constructor
  · rintro ⟨front, back, hs, hlen⟩
    have hlist : s.toList.map Char.toLower = front.toList ++ back.toList := by
      rw [← String.toList_append, ← hs, asciiLower, String.toList_ofList]
    rcases List.map_eq_append_iff.mp hlist with ⟨xs, ys, hxs, hfront, -⟩
    refine ⟨String.ofList xs, String.ofList ys, ?_, ?_⟩
    · rw [← String.ofList_append, ← hxs, String.ofList_toList]
    · rw [← hlen, ← length_utf8_map_toLower, hfront, String.ofList_toList]
  · rintro ⟨front, back, rfl, hlen⟩
    refine ⟨asciiLower front, asciiLower back, ?_, ?_⟩
    · rw [asciiLower, asciiLower, asciiLower, String.toList_append, List.map_append, String.ofList_append]
    · rw [length_utf8_asciiLower, hlen]

end Slices

/-! ## Separators -/

/-- With enough steps, nothing is left to drop. -/
theorem not_prefix_dropRepeated {pat : List Char} (hpat : pat ≠ []) {n : Nat} {cs : List Char}
    (hn : cs.length ≤ n) : ¬ pat <+: dropRepeated pat n cs := by
  induction n generalizing cs with
  | zero =>
      rw [List.length_eq_zero_iff.mp (Nat.le_zero.mp hn)]
      exact fun h => hpat (List.prefix_nil.mp h)
  | succ n ih =>
      unfold dropRepeated
      split
      · refine ih ?_
        have hpos := List.length_pos_of_ne_nil hpat
        rw [List.length_drop]
        omega
      · rename_i h
        exact fun hpre => h (List.isPrefixOf_iff_prefix.mpr hpre)

/-- Any number of copies is dropped. -/
theorem dropRepeated_flatten_replicate {pat : List Char} (hpat : pat ≠ []) {cs : List Char}
    (hcs : ¬ pat <+: cs) {k n : Nat} (hn : ((List.replicate k pat).flatten ++ cs).length ≤ n) :
    dropRepeated pat n ((List.replicate k pat).flatten ++ cs) = cs := by
  induction k generalizing n with
  | zero =>
      cases n with
      | zero => rfl
      | succ n =>
          have hnot : ¬ pat.isPrefixOf cs = true := fun h => hcs (List.isPrefixOf_iff_prefix.mp h)
          exact if_neg hnot
  | succ k ih =>
      have hpos := List.length_pos_of_ne_nil hpat
      simp only [List.replicate_succ, List.flatten_cons, List.append_assoc, List.length_append] at hn ⊢
      cases n with
      | zero => omega
      | succ n =>
          have hpre : pat.isPrefixOf (pat ++ ((List.replicate k pat).flatten ++ cs)) = true :=
            List.isPrefixOf_iff_prefix.mpr (List.prefix_append _ _)
          rw [dropRepeated, if_pos hpre, List.drop_left]
          refine ih ?_
          rw [List.length_append]
          omega

/-- `strip_prefix` in terms of the text. -/
theorem dropPrefix?_iff {front cs rest : List Char} : cs.dropPrefix? front = some rest ↔ cs = front ++ rest := by
  rw [List.dropPrefix?_eq_some_iff]
  constructor
  · rintro ⟨front', rfl, heq⟩
    rw [eq_of_beq heq]
  · intro h
    exact ⟨front, h, BEq.rfl⟩

/-- A separator splits a text at its first occurrence in one way. -/
theorem append_sep_inj {α : Type} {sep : α} {x x' z z' : List α} (hx : sep ∉ x) (hx' : sep ∉ x')
    (h : x ++ sep :: z = x' ++ sep :: z') : x = x' ∧ z = z' := by
  induction x generalizing x' with
  | nil =>
      cases x' with
      | nil =>
          simpa using h
      | cons b x' =>
          have hb : sep = b := by simpa using (List.cons.inj h).1
          exact absurd (hb ▸ List.mem_cons_self) hx'
  | cons a x ih =>
      cases x' with
      | nil =>
          have ha : a = sep := by simpa using (List.cons.inj h).1
          exact absurd (ha ▸ List.mem_cons_self) hx
      | cons b x' =>
          rcases List.cons.inj h with ⟨rfl, hrest⟩
          have htails := ih (fun hmem => hx (List.mem_cons_of_mem a hmem))
            (fun hmem => hx' (List.mem_cons_of_mem a hmem)) hrest
          exact ⟨by rw [htails.1], htails.2⟩

/-- It splits one at its last occurrence in one way. -/
theorem append_sep_inj_last {α : Type} {sep : α} {x x' z z' : List α} (hz : sep ∉ z) (hz' : sep ∉ z')
    (h : x ++ sep :: z = x' ++ sep :: z') : x = x' ∧ z = z' := by
  have hrev : z.reverse ++ sep :: x.reverse = z'.reverse ++ sep :: x'.reverse := by
    simpa using congrArg List.reverse h
  rcases append_sep_inj (by simpa using hz) (by simpa using hz') hrev with ⟨hzz, hxx⟩
  exact ⟨List.reverse_injective hxx, List.reverse_injective hzz⟩

/-- Pieces that are ended by a separator which is in none of them can be told apart. -/
theorem flatMap_concat_inj {α : Type} {sep : α} {xs ys : List (List α)} (hx : ∀ x ∈ xs, sep ∉ x)
    (hy : ∀ y ∈ ys, sep ∉ y)
    (h : (xs.flatMap fun x => x ++ [sep]) = ys.flatMap fun y => y ++ [sep]) : xs = ys := by
  induction xs generalizing ys with
  | nil =>
      cases ys with
      | nil => rfl
      | cons y ys => simp at h
  | cons x xs ih =>
      cases ys with
      | nil => simp at h
      | cons y ys =>
          rw [List.forall_mem_cons] at hx hy
          simp only [List.flatMap_cons, List.append_assoc, List.singleton_append] at h
          rcases append_sep_inj hx.1 hy.1 h with ⟨rfl, hrest⟩
          rw [ih hx.2 hy.2 hrest]

theorem flatMap_splitOn {α : Type} [DecidableEq α] (sep : α) (xs : List α) :
    ((xs.splitOn sep).flatMap fun x => x ++ [sep]) = xs ++ [sep] := by
  induction xs with
  | nil => simp
  | cons x xs ih =>
      rcases List.exists_cons_of_ne_nil (List.splitOn_ne_nil sep xs) with ⟨first, rest, hsplit⟩
      rw [hsplit, List.flatMap_cons] at ih
      rw [List.splitOn_cons_eq_if_modifyHead, hsplit]
      split
      · rename_i hx
        rw [beq_iff_eq.1 hx, List.flatMap_cons, List.flatMap_cons, ih]
        rfl
      · rw [List.modifyHead_cons, List.flatMap_cons, List.cons_append, List.cons_append, ih, List.cons_append]

theorem splitOn_injective {α : Type} [DecidableEq α] (sep : α) :
    Function.Injective fun xs : List α => xs.splitOn sep := by
  intro xs ys h
  calc xs = [sep].intercalate (xs.splitOn sep) := (List.intercalate_splitOn sep).symm
    _ = [sep].intercalate (ys.splitOn sep) := congrArg _ h
    _ = ys := List.intercalate_splitOn sep

/-- Two texts with a separator each are the same if the parts are, or if one begins with the other up to a
second separator. -/
theorem append_sep_eq_iff {α : Type} {sep : α} {x x' z z' : List α} :
    x ++ sep :: z = x' ++ sep :: z' ↔ (x = x' ∧ z = z') ∨
      (∃ s, x = x' ++ sep :: s ∧ z' = s ++ sep :: z) ∨ ∃ s, x' = x ++ sep :: s ∧ z = s ++ sep :: z' := by
  constructor
  · intro h
    rcases List.append_eq_append_iff.1 h with ⟨s, hx, hz⟩ | ⟨s, hx, hz⟩
    · cases s with
      | nil =>
          exact .inl ⟨by simpa using hx.symm, by simpa using hz⟩
      | cons c s =>
          obtain ⟨rfl, hrest⟩ := List.cons.inj hz
          exact .inr (.inr ⟨s, hx, hrest⟩)
    · cases s with
      | nil =>
          exact .inl ⟨by simpa using hx, by simpa using hz.symm⟩
      | cons c s =>
          obtain ⟨rfl, hrest⟩ := List.cons.inj hz
          exact .inr (.inl ⟨s, hx, hrest⟩)
  · rintro (⟨rfl, rfl⟩ | ⟨s, rfl, rfl⟩ | ⟨s, rfl, rfl⟩)
    · rfl
    · simp
    · simp

theorem splitOnce_append {sep : Char} {x : List Char} (h : sep ∉ x) (y : List Char) :
    splitOnce sep (x ++ sep :: y) = some (x, y) := by
  induction x with
  | nil =>
      simp [splitOnce]
  | cons c x ih =>
      have hc : c ≠ sep := fun heq => h (heq ▸ List.mem_cons_self)
      rw [List.cons_append, splitOnce, if_neg hc, ih fun hmem => h (List.mem_cons_of_mem c hmem)]
      rfl

theorem splitOnce_eq_none_iff {sep : Char} {cs : List Char} : splitOnce sep cs = none ↔ sep ∉ cs := by
  induction cs with
  | nil =>
      simp [splitOnce]
  | cons c cs ih =>
      by_cases hc : c = sep
      · simp [splitOnce, hc]
      · simp [splitOnce, hc, ih, Ne.symm hc]

theorem splitOnce_eq_some_iff {sep : Char} {cs x y : List Char} :
    splitOnce sep cs = some (x, y) ↔ cs = x ++ sep :: y ∧ sep ∉ x := by
  constructor
  · intro h
    have hmem : sep ∈ cs := by
      by_contra hnot
      rw [splitOnce_eq_none_iff.mpr hnot] at h
      cases h
    rcases List.eq_append_cons_of_mem hmem with ⟨x', y', hcs, hx'⟩
    rw [hcs, splitOnce_append hx'] at h
    cases h
    exact ⟨hcs, hx'⟩
  · rintro ⟨rfl, hx⟩
    exact splitOnce_append hx y

theorem rsplitOnce_eq_some_iff {sep : Char} {cs x y : List Char} :
    rsplitOnce sep cs = some (x, y) ↔ cs = x ++ sep :: y ∧ sep ∉ y := by
  constructor
  · intro h
    rcases Option.map_eq_some_iff.mp h with ⟨⟨y', x'⟩, hsplit, heq⟩
    cases heq
    rcases splitOnce_eq_some_iff.mp hsplit with ⟨hcs, hy⟩
    refine ⟨?_, by simpa using hy⟩
    rw [← List.reverse_reverse cs, hcs]
    simp
  · rintro ⟨rfl, hy⟩
    have hsplit : splitOnce sep (x ++ sep :: y).reverse = some (y.reverse, x.reverse) :=
      splitOnce_eq_some_iff.mpr ⟨by simp, by simpa using hy⟩
    rw [rsplitOnce, hsplit]
    simp

theorem rsplitOnce_eq_none_iff {sep : Char} {cs : List Char} : rsplitOnce sep cs = none ↔ sep ∉ cs := by
  rw [rsplitOnce, Option.map_eq_none_iff, splitOnce_eq_none_iff, List.mem_reverse]

section Pieces

variable {sep : Char} {cs x y : List Char}

theorem upTo_eq_self (h : sep ∉ cs) : upTo sep cs = cs :=
  List.takeWhile_eq_self_iff.mpr fun c hc => by simpa using ne_of_mem_of_not_mem hc h

theorem upTo_append (h : sep ∉ x) (y : List Char) : upTo sep (x ++ sep :: y) = x := by
  rw [upTo, List.takeWhile_append_of_pos fun c hc => by simpa using ne_of_mem_of_not_mem hc h]
  simp

theorem prefix_upTo_iff {front : List Char} (h : sep ∉ front) : front <+: upTo sep cs ↔ front <+: cs := by
  constructor
  · intro hfront
    exact hfront.trans (List.takeWhile_prefix _)
  · rintro ⟨tail, rfl⟩
    rw [upTo, List.takeWhile_append_of_pos fun c hc => by simpa using ne_of_mem_of_not_mem hc h]
    exact List.prefix_append _ _

/-- Separators at the end of a text are not before its first one. -/
theorem upTo_append_of_forall_eq {seps : List Char} (h : ∀ c ∈ seps, c = sep) :
    upTo sep (cs ++ seps) = upTo sep cs := by
  cases seps with
  | nil =>
      rw [List.append_nil]
  | cons c seps =>
      have hc : c = sep := h c List.mem_cons_self
      subst hc
      by_cases hmem : c ∈ cs
      · rcases List.eq_append_cons_of_mem hmem with ⟨x, y, rfl, hx⟩
        rw [List.append_assoc, List.cons_append, upTo_append hx, upTo_append hx]
      · rw [upTo_append hmem, upTo_eq_self hmem]

theorem upTo_trimEnd (sep : Char) (cs : List Char) : upTo sep (trimEnd (fun c => c = sep) cs) = upTo sep cs := by
  rcases exists_eq_trimEnd_append (fun c => c = sep) cs with ⟨seps, hcs, hseps⟩
  calc upTo sep (trimEnd (fun c => c = sep) cs) = upTo sep (trimEnd (fun c => c = sep) cs ++ seps) :=
        (upTo_append_of_forall_eq fun c hc => of_decide_eq_true (hseps c hc)).symm
    _ = upTo sep cs := by rw [← hcs]

theorem afterLast_eq_reverse (sep : Char) (cs : List Char) : afterLast sep cs = (upTo sep cs.reverse).reverse := rfl

theorem afterLast_eq_self (h : sep ∉ cs) : afterLast sep cs = cs := by
  rw [afterLast_eq_reverse, upTo_eq_self (by simpa using h), List.reverse_reverse]

theorem afterLast_append (x : List Char) (h : sep ∉ y) : afterLast sep (x ++ sep :: y) = y := by
  have hreverse : (x ++ sep :: y).reverse = y.reverse ++ sep :: x.reverse := by simp
  rw [afterLast_eq_reverse, hreverse, upTo_append (by simpa using h), List.reverse_reverse]

/-- A suffix without separators is the end of the last part. -/
theorem suffix_afterLast {suffix : List Char} (hsep : sep ∉ suffix) (h : suffix <:+ cs) :
    suffix <:+ afterLast sep cs := by
  rcases h with ⟨front, rfl⟩
  cases hsplit : rsplitOnce sep front with
  | none =>
      have hfront := rsplitOnce_eq_none_iff.mp hsplit
      rw [afterLast_eq_self (by simp [hfront, hsep])]
      exact List.suffix_append front suffix
  | some parts =>
      rcases rsplitOnce_eq_some_iff.mp hsplit with ⟨rfl, hlast⟩
      rw [List.append_assoc, List.cons_append, afterLast_append _ (by simp [hlast, hsep])]
      exact List.suffix_append parts.2 suffix

/-- The first piece ends before the first separator. -/
theorem head?_splitOn (sep : Char) (cs : List Char) : (cs.splitOn sep).head? = some (upTo sep cs) := by
  cases hsplit : splitOnce sep cs with
  | none =>
      have hsep := splitOnce_eq_none_iff.mp hsplit
      rw [List.splitOn_eq_singleton hsep, upTo_eq_self hsep]
      rfl
  | some parts =>
      rcases splitOnce_eq_some_iff.mp hsplit with ⟨rfl, hsep⟩
      rw [List.splitOn_append_cons_self, List.splitOn_eq_singleton hsep, upTo_append hsep]
      rfl

/-- The last piece begins after the last separator. -/
theorem getLast?_splitOn (sep : Char) (cs : List Char) : (cs.splitOn sep).getLast? = some (afterLast sep cs) := by
  cases hsplit : rsplitOnce sep cs with
  | none =>
      have hsep := rsplitOnce_eq_none_iff.mp hsplit
      rw [List.splitOn_eq_singleton hsep, afterLast_eq_self hsep]
      rfl
  | some parts =>
      rcases rsplitOnce_eq_some_iff.mp hsplit with ⟨rfl, hsep⟩
      rw [List.splitOn_append_cons_self, List.splitOn_eq_singleton hsep, afterLast_append _ hsep]
      exact List.getLast?_concat

end Pieces

/-! ## UTF-16 -/

/-- The code units of a character: itself, or a pair of surrogates from `0x10000` on. -/
def utf16Char (c : Char) : List Nat :=
  if c.toNat < 0x10000 then [c.toNat]
  else [0xD800 + (c.toNat - 0x10000) / 0x400, 0xDC00 + (c.toNat - 0x10000) % 0x400]

/-- `encode_utf16`. -/
def utf16 (s : String) : List Nat :=
  s.toList.flatMap utf16Char

theorem not_surrogate (c : Char) : c.toNat < 0xD800 ∨ 0xDFFF < c.toNat ∧ c.toNat < 0x110000 :=
  c.valid

/-- No character is a surrogate, so the first unit says how many follow it. -/
theorem utf16Char_append_inj {c c' : Char} {r r' : List Nat}
    (h : utf16Char c ++ r = utf16Char c' ++ r') : c = c' ∧ r = r' := by
  have hc := not_surrogate c
  have hc' := not_surrogate c'
  have hcode : c.toNat = c'.toNat ∧ r = r' := by
    by_cases hshort : c.toNat < 0x10000 <;> by_cases hshort' : c'.toNat < 0x10000 <;>
      simp only [utf16Char, hshort, hshort', if_true, if_false, List.cons_append, List.nil_append,
        List.cons.injEq] at h
    · exact h
    · omega
    · omega
    · exact ⟨by omega, h.2.2⟩
  exact ⟨Char.toNat_inj.1 hcode.1, hcode.2⟩

theorem flatMap_utf16Char_injective : Function.Injective fun cs : List Char => cs.flatMap utf16Char := by
  have hne : ∀ (c : Char) (r : List Nat), utf16Char c ++ r ≠ [] := by
    intro c r
    unfold utf16Char
    split <;> simp
  intro cs cs' h
  induction cs generalizing cs' with
  | nil =>
      cases cs' with
      | nil =>
          rfl
      | cons c' cs' =>
          exact absurd h.symm (hne c' _)
  | cons c cs ih =>
      cases cs' with
      | nil =>
          exact absurd h (hne c _)
      | cons c' cs' =>
          rcases utf16Char_append_inj h with ⟨rfl, hrest⟩
          rw [ih hrest]

theorem utf16_injective : Function.Injective utf16 :=
  flatMap_utf16Char_injective.comp fun _ _ => String.toList_inj.1

end Lib
end Aivcs
