import Aivcs.Lib.Text

/-!
# Utf8Lossy — the text of bytes that need not be UTF-8

`String::from_utf8_lossy`: characters are read from the front, and the bytes at which no character begins
are replaced, a malformed part at a time.  A part ends where an ASCII byte begins, so that the text can be
read on both sides of it (`fromUtf8Lossy_append`).
-/

namespace Aivcs
namespace Lib

/-- The character the bytes begin with, if they begin with one. -/
def firstChar? (bs : Bytes) : Option Char :=
  ByteArray.utf8DecodeChar? ⟨bs.toArray⟩ 0

def isContinuation (b : UInt8) : Bool :=
  0x80 ≤ b && b ≤ 0xBF

/-- The two bytes begin a character of three bytes or of four. -/
def opensLonger (b c : UInt8) : Bool :=
  (b = 0xE0 && 0xA0 ≤ c && c ≤ 0xBF) || (0xE1 ≤ b && b ≤ 0xEC && isContinuation c) ||
    (b = 0xED && 0x80 ≤ c && c ≤ 0x9F) || (0xEE ≤ b && b ≤ 0xEF && isContinuation c) ||
    (b = 0xF0 && 0x90 ≤ c && c ≤ 0xBF) || (0xF1 ≤ b && b ≤ 0xF3 && isContinuation c) ||
    (b = 0xF4 && 0x80 ≤ c && c ≤ 0x8F)

/-- How many bytes one replacement character stands for, where no character begins. -/
def malformedLength : Bytes → Nat
  | b :: c :: d :: _ => if opensLonger b c then (if 0xF0 ≤ b && isContinuation d then 3 else 2) else 1
  | [b, c] => if opensLonger b c then 2 else 1
  | _ => 1

theorem malformedLength_pos (bs : Bytes) : 0 < malformedLength bs := by
  fun_cases malformedLength bs <;> simp

/-- `from_utf8_lossy`. -/
def fromUtf8Lossy : Bytes → List Char
  | [] => []
  | b :: bs =>
      match firstChar? (b :: bs) with
      | some c => c :: fromUtf8Lossy ((b :: bs).drop c.utf8Size)
      | none => Char.ofNat 0xFFFD :: fromUtf8Lossy ((b :: bs).drop (malformedLength (b :: bs)))
termination_by bs => bs.length
decreasing_by
  · have hpos := Char.utf8Size_pos c
    simp only [List.length_drop, List.length_cons]
    omega
  · have hpos := malformedLength_pos (b :: bs)
    simp only [List.length_drop, List.length_cons]
    omega

section Characters

variable {b : UInt8} {c : Char} {xs ys bs : Bytes}

theorem firstChar?_eq_some_iff : firstChar? bs = some c ↔ ∃ rest, bs = String.utf8EncodeChar c ++ rest := by
  constructor
  · intro h
    rcases ByteArray.exists_of_utf8DecodeChar?_eq_some h with ⟨rest, hrest⟩
    refine ⟨rest.data.toList, ?_⟩
    simpa using congrArg (fun a => a.data.toList) hrest
  · rintro ⟨rest, rfl⟩
    have harr : (⟨(String.utf8EncodeChar c ++ rest).toArray⟩ : ByteArray) =
        (String.utf8EncodeChar c).toByteArray ++ rest.toByteArray := by
      rw [← List.toByteArray_append]
      exact ByteArray.ext (by simp)
    rw [firstChar?, harr]
    exact ByteArray.utf8DecodeChar?_utf8EncodeChar_append

/-- An ASCII byte is a whole character or no part of one. -/
theorem utf8EncodeChar_of_mem (hb : b < 128) (h : b ∈ String.utf8EncodeChar c) :
    String.utf8EncodeChar c = [b] := by
  have hval := val_of_mem_utf8EncodeChar hb h
  have hsize : c.utf8Size = 1 := by
    rw [Char.utf8Size_eq_one_iff, UInt32.le_iff_toNat_le, hval]
    exact Nat.le_of_lt_succ (UInt8.lt_iff_toNat_lt.1 hb)
  have hlength := String.length_utf8EncodeChar c
  rw [hsize] at hlength
  rcases List.length_eq_one_iff.1 hlength with ⟨d, hd⟩
  rw [hd, List.mem_singleton] at h
  rw [hd, h]

/-- A text can be cut on both sides of an ASCII byte. -/
theorem exists_of_utf8_append {cs : List Char} (hb : b < 128)
    (h : utf8 (String.ofList cs) = xs ++ b :: ys) :
    ∃ front back, utf8 (String.ofList front) = xs ∧ utf8 (String.ofList back) = ys ∧
      ∃ c, String.utf8EncodeChar c = [b] ∧ cs = front ++ c :: back := by
  induction cs generalizing xs with
  | nil =>
      cases xs <;> cases h
  | cons c cs ih =>
      rw [utf8_ofList, List.flatMap_cons, ← utf8_ofList] at h
      rcases List.append_eq_append_iff.1 h with ⟨zs, rfl, hrest⟩ | ⟨zs, hchar, hrest⟩
      · -- The byte is behind the first character.
        rcases ih hrest with ⟨front, back, hfront, hback, d, hd, rfl⟩
        refine ⟨c :: front, back, ?_, hback, d, hd, rfl⟩
        rw [utf8_ofList, List.flatMap_cons, ← utf8_ofList, hfront]
      · cases zs with
        | nil =>
            rw [List.append_nil] at hchar
            have hfirst : utf8 (String.ofList cs) = [] ++ b :: ys := hrest.symm
            rcases ih hfirst with ⟨front, back, hfront, hback, d, hd, rfl⟩
            refine ⟨c :: front, back, ?_, hback, d, hd, rfl⟩
            rw [utf8_ofList, List.flatMap_cons, ← utf8_ofList, hfront, List.append_nil, hchar]
        | cons z zs =>
            obtain ⟨rfl, rfl⟩ := List.cons.inj hrest
            have hwhole := utf8EncodeChar_of_mem (c := c) hb (hchar ▸ by simp)
            have hnil : xs = [] ∧ zs = [] := by
              have hlength := congrArg List.length (hchar.symm.trans hwhole)
              simp only [List.length_append, List.length_cons, List.length_nil] at hlength
              exact ⟨List.length_eq_zero_iff.1 (by omega), List.length_eq_zero_iff.1 (by omega)⟩
            rw [hnil.1, hnil.2]
            exact ⟨[], cs, rfl, rfl, c, hwhole, rfl⟩

theorem firstChar?_append (hb : b < 128) (hxs : xs ≠ []) (ys : Bytes) :
    firstChar? (xs ++ b :: ys) = firstChar? xs := by
  refine Option.ext fun c => ?_
  rw [firstChar?_eq_some_iff, firstChar?_eq_some_iff]
  constructor
  · rintro ⟨rest, hrest⟩
    rcases List.append_eq_append_iff.1 hrest with ⟨zs, hzs, hrest⟩ | ⟨zs, hzs, hrest⟩
    · cases zs with
      | nil =>
          exact ⟨[], by simpa using hzs.symm⟩
      | cons z zs =>
          -- The character would reach beyond `xs`, to the byte that is all of a character.
          obtain rfl : b = z := (List.cons.inj hrest).1
          have hwhole := utf8EncodeChar_of_mem (c := c) hb (hzs ▸ by simp)
          rw [hwhole, List.singleton_eq_append_iff] at hzs
          rcases hzs with ⟨hnil, _⟩ | ⟨_, hcons⟩
          · exact absurd hnil hxs
          · cases hcons
    · exact ⟨zs, hzs⟩
  · rintro ⟨rest, rfl⟩
    exact ⟨rest ++ b :: ys, List.append_assoc _ _ _⟩

theorem utf8Size_le_length (h : firstChar? bs = some c) : c.utf8Size ≤ bs.length := by
  rcases firstChar?_eq_some_iff.1 h with ⟨rest, rfl⟩
  rw [List.length_append, String.length_utf8EncodeChar]
  exact Nat.le_add_right _ _

theorem malformedLength_le (h : bs ≠ []) : malformedLength bs ≤ bs.length := by
  fun_cases malformedLength bs <;> simp_all
  exact List.length_pos_of_ne_nil h

theorem isContinuation_eq_false (hb : b < 128) : isContinuation b = false := by
  have hlow : ¬ (0x80 : UInt8) ≤ b := UInt8.not_le.2 hb
  simp [isContinuation, hlow]

theorem opensLonger_eq_false (a : UInt8) (hb : b < 128) : opensLonger a b = false := by
  have hlow : ∀ n : UInt8, 128 ≤ n → ¬ n ≤ b := fun n hn hle =>
    absurd (UInt8.lt_of_le_of_lt (UInt8.le_trans hn hle) hb) (UInt8.lt_irrefl _)
  simp [opensLonger, isContinuation_eq_false hb, hlow 0xA0 (by decide), hlow 0x80 (by decide),
    hlow 0x90 (by decide)]

theorem malformedLength_append (hb : b < 128) (hxs : xs ≠ []) :
    malformedLength (xs ++ b :: ys) = malformedLength xs := by
  match xs, hxs with
  | [x], _ =>
      cases ys <;> simp [malformedLength, opensLonger_eq_false x hb]
  | [x, y], _ =>
      simp [malformedLength, isContinuation_eq_false hb]
  | x :: y :: z :: xs, _ =>
      rfl

end Characters

section Lossy

variable {b : UInt8} {c : Char} {xs ys bs : Bytes}

@[simp] theorem fromUtf8Lossy_nil : fromUtf8Lossy [] = [] := by
  rw [fromUtf8Lossy]

theorem fromUtf8Lossy_of_some (h : firstChar? bs = some c) :
    fromUtf8Lossy bs = c :: fromUtf8Lossy (bs.drop c.utf8Size) := by
  cases bs with
  | nil =>
      have hle := utf8Size_le_length h
      exact absurd (Char.utf8Size_pos c) (Nat.not_lt.2 hle)
  | cons b bs =>
      rw [fromUtf8Lossy, h]

theorem fromUtf8Lossy_of_none (hne : bs ≠ []) (h : firstChar? bs = none) :
    fromUtf8Lossy bs = Char.ofNat 0xFFFD :: fromUtf8Lossy (bs.drop (malformedLength bs)) := by
  cases bs with
  | nil =>
      exact absurd rfl hne
  | cons b bs =>
      rw [fromUtf8Lossy, h]

/-- What is UTF-8 is read as it is. -/
theorem fromUtf8Lossy_utf8_append (cs : List Char) (bs : Bytes) :
    fromUtf8Lossy (utf8 (String.ofList cs) ++ bs) = cs ++ fromUtf8Lossy bs := by
  rw [utf8_ofList]
  induction cs with
  | nil =>
      rfl
  | cons c cs ih =>
      rw [List.flatMap_cons, List.append_assoc, fromUtf8Lossy_of_some (firstChar?_eq_some_iff.2 ⟨_, rfl⟩),
        ← String.length_utf8EncodeChar, List.drop_left, ih]
      rfl

/-- The text ends at an ASCII byte and begins anew. -/
theorem fromUtf8Lossy_append (hb : b < 128) (xs ys : Bytes) :
    fromUtf8Lossy (xs ++ b :: ys) = fromUtf8Lossy xs ++ fromUtf8Lossy (b :: ys) := by
  -- What begins in `xs` ends there, so both sides take the same bytes off.
  induction hn : xs.length using Nat.strong_induction_on generalizing xs with
  | h n ih =>
      subst hn
      by_cases hxs : xs = []
      · rw [hxs, fromUtf8Lossy_nil]
        rfl
      · have hfirst := firstChar?_append hb hxs ys
        have hne : xs ++ b :: ys ≠ [] := by simp [hxs]
        have hpos := List.length_pos_of_ne_nil hxs
        cases hc : firstChar? xs with
        | some c =>
            have hle := utf8Size_le_length hc
            have hlt : (xs.drop c.utf8Size).length < xs.length := by
              have hsize := Char.utf8Size_pos c
              rw [List.length_drop]
              omega
            rw [fromUtf8Lossy_of_some (hfirst.trans hc), fromUtf8Lossy_of_some hc,
              List.drop_append_of_le_length hle, ih _ hlt _ rfl]
            rfl
        | none =>
            have hle := malformedLength_le hxs
            have hlt : (xs.drop (malformedLength xs)).length < xs.length := by
              have hsize := malformedLength_pos xs
              rw [List.length_drop]
              omega
            rw [fromUtf8Lossy_of_none hne (hfirst.trans hc), fromUtf8Lossy_of_none hxs hc,
              malformedLength_append hb hxs, List.drop_append_of_le_length hle, ih _ hlt _ rfl]
            rfl

/-- An ASCII character of the text is one of the bytes. -/
theorem mem_of_mem_fromUtf8Lossy (hc : c.toNat < 128) (h : c ∈ fromUtf8Lossy bs) :
    UInt8.ofNat c.toNat ∈ bs := by
  induction hn : bs.length using Nat.strong_induction_on generalizing bs with
  | h n ih =>
      subst hn
      by_cases hbs : bs = []
      · rw [hbs, fromUtf8Lossy_nil] at h
        cases h
      · have hpos := List.length_pos_of_ne_nil hbs
        cases hd : firstChar? bs with
        | some d =>
            rw [fromUtf8Lossy_of_some hd] at h
            rcases List.mem_cons.1 h with rfl | h
            · rcases firstChar?_eq_some_iff.1 hd with ⟨rest, rfl⟩
              refine List.mem_append_left _ ?_
              have hsize : c.utf8Size = 1 := by
                rw [Char.utf8Size_eq_one_iff, UInt32.le_iff_toNat_le]
                exact Nat.le_of_lt_succ hc
              rw [String.utf8EncodeChar_eq_singleton hsize, List.mem_singleton]
              rfl
            · refine List.mem_of_mem_drop (ih _ ?_ h rfl)
              have hsize := Char.utf8Size_pos d
              rw [List.length_drop]
              omega
        | none =>
            rw [fromUtf8Lossy_of_none hbs hd] at h
            rcases List.mem_cons.1 h with rfl | h
            · -- The replacement character is not ASCII.
              exact absurd hc (by decide)
            · refine List.mem_of_mem_drop (ih _ ?_ h rfl)
              have hsize := malformedLength_pos bs
              rw [List.length_drop]
              omega

end Lossy

end Lib
end Aivcs
