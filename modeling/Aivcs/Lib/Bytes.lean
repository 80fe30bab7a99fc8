import Mathlib.Logic.Function.Basic
import Mathlib.Data.Nat.Digits.Lemmas

/-!
# Bytes — byte strings, the UTF-8 bytes of a text and positional numerals

Everything a program hashes, stores or streams is a `Bytes`.  A text enters as `utf8 s`, and a
number enters as the ASCII digits `digitBytes b n` of its base-`b` numeral (most significant
first), possibly zero-padded to a width (`padded`).

`readNat` reads a digit run back; `readNat_digitBytes` and `readNat_padded` are the two round trips.
-/

namespace Aivcs
namespace Lib

abbrev Bytes := List UInt8

/-- The UTF-8 bytes of a text. -/
def utf8 (s : String) : Bytes :=
  s.toByteArray.data.toList

theorem utf8_injective : Function.Injective utf8 := by
  intro s t h
  have hdata : s.toByteArray.data = t.toByteArray.data := Array.toList_inj.1 h
  exact String.toByteArray_inj.1 (ByteArray.ext hdata)

@[simp] theorem utf8_append (s t : String) : utf8 (s ++ t) = utf8 s ++ utf8 t := by
  simp [utf8]

/-- The text with the given UTF-8 bytes, if they are valid UTF-8. -/
def ofUtf8? (bs : Bytes) : Option String :=
  String.fromUTF8? ⟨bs.toArray⟩

@[simp] theorem ofUtf8?_utf8 (s : String) : ofUtf8? (utf8 s) = some s := by
  have harr : (⟨(utf8 s).toArray⟩ : ByteArray) = s.toByteArray := by
    simp [utf8]
  simpa [ofUtf8?, String.fromUTF8?, harr, String.fromUTF8] using s.isValidUTF8

/-! ## Splitting -/

/-- The separator is in none of the pieces. -/
theorem not_mem_of_mem_splitOn {α : Type} [DecidableEq α] {a : α} {xs piece : List α}
    (h : piece ∈ xs.splitOn a) : a ∉ piece := by
  induction xs generalizing piece with
  | nil =>
      simp_all
  | cons b bs ih =>
      rw [List.splitOn_cons_eq_if_modifyHead] at h
      split at h
      · rcases List.mem_cons.mp h with rfl | h
        · exact List.not_mem_nil
        · exact ih h
      · rename_i hb
        obtain ⟨first, rest, hsplit⟩ := List.exists_cons_of_ne_nil (List.splitOn_ne_nil a bs)
        rw [hsplit] at h ih
        rcases List.mem_cons.mp h with rfl | h
        · have hne : a ≠ b := fun heq => hb (beq_iff_eq.mpr heq.symm)
          exact List.not_mem_cons_of_ne_of_not_mem hne (ih List.mem_cons_self)
        · exact ih (List.mem_cons_of_mem first h)

/-- Everything but the separator is in one of the pieces. -/
theorem exists_mem_splitOn {α : Type} [DecidableEq α] {a c : α} {xs : List α} (hc : c ∈ xs)
    (hne : c ≠ a) : ∃ piece ∈ xs.splitOn a, c ∈ piece := by
  induction xs with
  | nil =>
      exact absurd hc List.not_mem_nil
  | cons b bs ih =>
      rw [List.splitOn_cons_eq_if_modifyHead]
      split
      · rename_i hb
        have hbs : c ∈ bs := by
          rcases List.mem_cons.mp hc with rfl | hbs
          · exact absurd (beq_iff_eq.mp hb) hne
          · exact hbs
        rcases ih hbs with ⟨piece, hpiece, hmem⟩
        exact ⟨piece, List.mem_cons_of_mem _ hpiece, hmem⟩
      · obtain ⟨first, rest, hsplit⟩ := List.exists_cons_of_ne_nil (List.splitOn_ne_nil a bs)
        rw [hsplit] at ih ⊢
        rcases List.mem_cons.mp hc with rfl | hbs
        · exact ⟨c :: first, List.mem_cons_self, List.mem_cons_self⟩
        · rcases ih hbs with ⟨piece, hpiece, hmem⟩
          rcases List.mem_cons.mp hpiece with rfl | hpiece
          · exact ⟨b :: piece, List.mem_cons_self, List.mem_cons_of_mem b hmem⟩
          · exact ⟨piece, List.mem_cons_of_mem _ hpiece, hmem⟩

theorem splitOn_append_of_not_mem {α : Type} [DecidableEq α] {a : α} {xs : List α} (h : a ∉ xs)
    (ys : List α) : (xs ++ ys).splitOn a = (ys.splitOn a).modifyHead (xs ++ ·) := by
  induction xs with
  | nil =>
      cases hys : ys.splitOn a <;> simp [hys]
  | cons x xs ih =>
      have hx : (x == a) = false := by
        rw [beq_eq_false_iff_ne]
        rintro rfl
        exact h List.mem_cons_self
      rw [List.cons_append, List.splitOn_cons_eq_if_modifyHead, hx,
        ih (fun hmem => h (List.mem_cons_of_mem _ hmem)), List.modifyHead_modifyHead]
      rfl

theorem utf8_ofList (cs : List Char) :
    utf8 (String.ofList cs) = cs.flatMap String.utf8EncodeChar := by
  simp [utf8, String.ofList, List.utf8Encode]

/-- A byte below 128 stands for the character of that number. -/
theorem val_of_mem_utf8EncodeChar {c : Char} {b : UInt8} (hb : b < 128)
    (h : b ∈ String.utf8EncodeChar c) : c.val.toNat = b.toNat := by
  have hb' : b.toNat < 128 := hb
  -- Every byte of a longer encoding has its highest bit set.
  have hhigh : ∀ n, 128 ≤ n → n < 256 → b ≠ UInt8.ofNat n := by
    rintro n hlo hhi rfl
    rw [UInt8.toNat_ofNat', Nat.mod_eq_of_lt hhi] at hb'
    omega
  unfold String.utf8EncodeChar at h
  dsimp only at h
  split_ifs at h with h1 h2 h3
  · rw [List.mem_singleton.1 h, UInt8.toNat_ofNat', Nat.mod_eq_of_lt (by omega)]
  all_goals
    exfalso
    simp only [List.mem_cons, List.not_mem_nil, or_false] at h
  · rcases h with h | h
    · exact hhigh _ (by omega) (by omega) h
    · exact hhigh _ (by omega) (by omega) h
  · rcases h with h | h | h
    · exact hhigh _ (by omega) (by omega) h
    · exact hhigh _ (by omega) (by omega) h
    · exact hhigh _ (by omega) (by omega) h
  · rcases h with h | h | h | h
    · exact hhigh _ (by omega) (by omega) h
    · exact hhigh _ (by omega) (by omega) h
    · exact hhigh _ (by omega) (by omega) h
    · exact hhigh _ (by omega) (by omega) h

theorem eq_of_mem_utf8EncodeChar {c d : Char} {b : UInt8} (hb : b < 128) (hd : d.val.toNat = b.toNat)
    (h : b ∈ String.utf8EncodeChar c) : c = d :=
  Char.ext (UInt32.toNat_inj.1 ((val_of_mem_utf8EncodeChar hb h).trans hd.symm))

theorem mem_of_mem_utf8_ofList {cs : List Char} {d : Char} {b : UInt8} (hb : b < 128)
    (hd : d.val.toNat = b.toNat) (h : b ∈ utf8 (String.ofList cs)) : d ∈ cs := by
  rw [utf8_ofList] at h
  rcases List.mem_flatMap.1 h with ⟨c, hc, hbyte⟩
  exact eq_of_mem_utf8EncodeChar hb hd hbyte ▸ hc

theorem slash_not_mem_utf8EncodeChar {c : Char} (hc : c ≠ '/') :
    (47 : UInt8) ∉ String.utf8EncodeChar c :=
  fun h => hc (eq_of_mem_utf8EncodeChar (by decide) rfl h)

/-- Splitting a text at slashes and splitting its bytes come to the same. -/
theorem splitOn_utf8_ofList (cs : List Char) :
    (utf8 (String.ofList cs)).splitOn 47 =
      (cs.splitOn '/').map fun piece => utf8 (String.ofList piece) := by
  simp only [utf8_ofList]
  induction cs with
  | nil =>
      simp
  | cons c cs ih =>
      obtain ⟨first, rest, hsplit⟩ := List.exists_cons_of_ne_nil (List.splitOn_ne_nil '/' cs)
      rw [hsplit, List.map_cons] at ih
      by_cases hc : c = '/'
      · have henc : String.utf8EncodeChar '/' = [47] := by decide
        rw [hc, List.flatMap_cons, henc, List.singleton_append,
          List.splitOn_cons_eq_if_modifyHead, List.splitOn_cons_eq_if_modifyHead, ih, hsplit]
        simp
      · have hne : (c == '/') = false := by simpa using hc
        rw [List.flatMap_cons, splitOn_append_of_not_mem (slash_not_mem_utf8EncodeChar hc), ih,
          List.splitOn_cons_eq_if_modifyHead, hne, hsplit]
        simp

theorem splitOn_utf8 (s : String) :
    (utf8 s).splitOn 47 = (s.toList.splitOn '/').map fun piece => utf8 (String.ofList piece) := by
  conv_lhs => rw [← String.ofList_toList (s := s)]
  exact splitOn_utf8_ofList s.toList

/-! ## Digits -/

/-- The ASCII byte of a digit below ten. -/
def digitByte (d : Nat) : UInt8 :=
  UInt8.ofNat (48 + d)

/-- The value of an ASCII digit byte. -/
def digitVal (b : UInt8) : Nat :=
  b.toNat - 48

def isDigit (b : UInt8) : Bool :=
  48 ≤ b && b ≤ 57

theorem digitVal_digitByte {d : Nat} (h : d < 10) : digitVal (digitByte d) = d := by
  have hlt : (48 + d) % 256 = 48 + d := by omega
  simp [digitVal, digitByte, hlt]

theorem isDigit_digitByte {d : Nat} (h : d < 10) : isDigit (digitByte d) = true := by
  revert d
  decide

/-- The numeral of `n` in base `b`, most significant digit first; zero is the one digit `0`. -/
def digitBytes (b n : Nat) : Bytes :=
  if n = 0 then [48] else ((Nat.digits b n).reverse).map digitByte

/-- The numeral of `n` in base `b`, zero-padded on the left to at least `w` digits. -/
def padded (b w n : Nat) : Bytes :=
  List.replicate (w - (digitBytes b n).length) 48 ++ digitBytes b n

/-- Read a run of digits in base `b`. -/
def readNat (b : Nat) (ds : Bytes) : Nat :=
  ds.foldl (fun acc d => acc * b + digitVal d) 0

theorem readNat_append (b : Nat) (xs ys : Bytes) :
    readNat b (xs ++ ys) = ys.foldl (fun acc d => acc * b + digitVal d) (readNat b xs) := by
  simp [readNat, List.foldl_append]

theorem readNat_replicate_zero (b k : Nat) (ds : Bytes) :
    readNat b (List.replicate k 48 ++ ds) = readNat b ds := by
  induction k with
  | zero =>
      simp
  | succ k ih =>
      have hz : digitVal 48 = 0 := by decide
      simpa [List.replicate_succ, readNat, hz] using ih

theorem readNat_map_reverse {b : Nat} (hb : b ≤ 10) :
    ∀ ds : List Nat, (∀ d ∈ ds, d < b) →
      readNat b (ds.reverse.map digitByte) = Nat.ofDigits b ds
  | [], _ => by
      simp [readNat]
  | d :: ds, h => by
      have hd : d < 10 := lt_of_lt_of_le (h d (by simp)) hb
      have ih := readNat_map_reverse hb ds (fun x hx => h x (by simp [hx]))
      -- The head is the least significant digit, so it is written and read last.
      have hsplit :
          (d :: ds).reverse.map digitByte = ds.reverse.map digitByte ++ [digitByte d] := by
        simp
      rw [hsplit, readNat_append, ih, Nat.ofDigits_cons]
      simp [digitVal_digitByte hd, Nat.mul_comm, Nat.add_comm]

theorem readNat_digitBytes {b : Nat} (hb : 1 < b) (hb' : b ≤ 10) (n : Nat) :
    readNat b (digitBytes b n) = n := by
  by_cases hn : n = 0
  · subst hn
    simp [digitBytes, readNat, digitVal]
  · have hlt : ∀ d ∈ Nat.digits b n, d < b := fun d hd => Nat.digits_lt_base hb hd
    simpa [digitBytes, hn, Nat.ofDigits_digits] using readNat_map_reverse hb' _ hlt

theorem readNat_padded {b : Nat} (hb : 1 < b) (hb' : b ≤ 10) (w n : Nat) :
    readNat b (padded b w n) = n := by
  rw [padded, readNat_replicate_zero, readNat_digitBytes hb hb']

theorem digitBytes_ne_nil {b : Nat} (n : Nat) : digitBytes b n ≠ [] := by
  by_cases hn : n = 0
  · simp [digitBytes, hn]
  · simpa [digitBytes, hn] using Nat.digits_ne_nil_iff_ne_zero.2 hn

theorem mem_digitBytes {b : Nat} (hb : 1 < b) (n : Nat) {x : UInt8} (hx : x ∈ digitBytes b n) :
    ∃ d < b, x = digitByte d := by
  by_cases hn : n = 0
  · refine ⟨0, by omega, ?_⟩
    have hx' : x = 48 := by simpa [digitBytes, hn] using hx
    simp [hx', digitByte]
  · simp only [digitBytes, hn, if_false, List.mem_map, List.mem_reverse] at hx
    rcases hx with ⟨d, hd, rfl⟩
    exact ⟨d, Nat.digits_lt_base hb hd, rfl⟩

theorem mem_padded {b : Nat} (hb : 1 < b) (w n : Nat) {x : UInt8} (hx : x ∈ padded b w n) :
    ∃ d < b, x = digitByte d := by
  rcases List.mem_append.1 hx with h | h
  · exact ⟨0, by omega, List.eq_of_mem_replicate h⟩
  · exact mem_digitBytes hb n h

theorem length_digitBytes_le {b w n : Nat} (hb : 1 < b) (hw : 0 < w) (hn : n < b ^ w) :
    (digitBytes b n).length ≤ w := by
  by_cases h0 : n = 0
  · simp [digitBytes, h0]
    omega
  · have : (Nat.digits b n).length ≤ w := (Nat.digits_length_le_iff hb n).2 hn
    simpa [digitBytes, h0] using this

/-- A number below `b ^ w` fills its field exactly. -/
theorem length_padded {b w n : Nat} (hb : 1 < b) (hw : 0 < w) (hn : n < b ^ w) :
    (padded b w n).length = w := by
  have hle := length_digitBytes_le hb hw hn
  simp [padded]
  omega

/-- A number below a higher power overflows its field by no more than the digits it has. -/
theorem length_padded_le {b w v n : Nat} (hb : 1 < b) (hv : 0 < v) (hwv : w ≤ v) (hn : n < b ^ v) :
    (padded b w n).length ≤ v := by
  have hle := length_digitBytes_le hb hv hn
  simp [padded]
  omega

end Lib
end Aivcs
