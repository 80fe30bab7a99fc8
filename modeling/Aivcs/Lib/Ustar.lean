import Aivcs.Lib.Bytes

/-!
# Ustar — fixed-offset byte records and a reader of USTAR archives

A header block is a byte string with fields at fixed offsets.  `patch` overwrites a field and
`field` reads one; the lemmas of the first section say how the two meet.

The reader follows the format: 512-byte headers whose checksum is recomputed with the checksum field
read as spaces, octal numbers, a path split over the name and the prefix field (each NUL-terminated
or full), contents padded to 512 bytes, and two zero blocks at the end.
-/

namespace Aivcs
namespace Lib
namespace Ustar

/-! ## Fields at fixed offsets -/

/-- Overwrite the bytes from an offset on. -/
def patch (h : Bytes) (off : Nat) (src : Bytes) : Bytes :=
  h.take off ++ (src ++ h.drop (off + src.length))

/-- The `len` bytes at an offset. -/
def field (h : Bytes) (off len : Nat) : Bytes :=
  (h.drop off).take len

theorem length_patch {h src : Bytes} {off : Nat} (hfit : off + src.length ≤ h.length) :
    (patch h off src).length = h.length := by
  simp only [patch, List.length_append, List.length_take, List.length_drop]
  omega

theorem field_patch_within {h src : Bytes} {off len : Nat} (hoff : off ≤ h.length)
    (hlen : src.length ≤ len) :
    field (patch h off src) off len = src ++ field h (off + src.length) (len - src.length) := by
  have htake : (h.take off).length = off := by simp [hoff]
  unfold field patch
  rw [List.drop_append_of_le_length (by omega), List.drop_of_length_le (by omega), List.nil_append,
    List.take_append, List.take_of_length_le hlen]

/-- A field that ends before the patch is untouched. -/
theorem field_patch_before {h src : Bytes} {off off' len : Nat} (hoff : off ≤ h.length)
    (hdisj : off' + len ≤ off) : field (patch h off src) off' len = field h off' len := by
  unfold field patch
  rw [List.drop_append_of_le_length (by simp; omega), List.take_append_of_le_length (by simp; omega),
    List.drop_take, List.take_take]
  congr 1
  omega

/-- A field that starts after the patch is untouched. -/
theorem field_patch_after {h src : Bytes} {off off' len : Nat} (hfit : off + src.length ≤ h.length)
    (hdisj : off + src.length ≤ off') : field (patch h off src) off' len = field h off' len := by
  have htake : (h.take off).length = off := by simp; omega
  unfold field patch
  rw [List.drop_append, List.drop_of_length_le (by omega), List.nil_append, List.drop_append,
    List.drop_of_length_le (by omega), List.nil_append, List.drop_drop]
  congr 2
  omega

/-- Patching the same field again forgets the first patch. -/
theorem patch_patch_self {h a b : Bytes} {off : Nat} (hoff : off ≤ h.length)
    (hlen : a.length = b.length) : patch (patch h off a) off b = patch h off b := by
  have htake : (h.take off).length = off := by simp [hoff]
  unfold patch
  rw [List.take_append_of_le_length (by omega), List.take_take, Nat.min_self, List.drop_append,
    List.drop_of_length_le (by omega), List.nil_append, List.drop_append,
    List.drop_of_length_le (by omega), List.nil_append, List.drop_drop]
  congr 3
  omega

theorem field_replicate (n off len : Nat) (b : UInt8) (hfit : off + len ≤ n) :
    field (List.replicate n b) off len = List.replicate len b := by
  simp only [field, List.drop_replicate, List.take_replicate]
  congr 1
  omega

/-! ## A record written field by field -/

/-- Write fields one after the other. -/
def patchAll (h : Bytes) (ps : List (Nat × Bytes)) : Bytes :=
  ps.foldl (fun h p => patch h p.1 p.2) h

/-- Every field lies inside the record. -/
def Fits (ps : List (Nat × Bytes)) (n : Nat) : Prop :=
  ∀ p ∈ ps, p.1 + p.2.length ≤ n

/-- No field touches the `len` bytes at `off`. -/
def Clear (ps : List (Nat × Bytes)) (off len : Nat) : Prop :=
  ∀ p ∈ ps, off + len ≤ p.1 ∨ p.1 + p.2.length ≤ off

/-- Two fields do not overlap. -/
def Apart (p q : Nat × Bytes) : Prop :=
  p.1 + p.2.length ≤ q.1 ∨ q.1 + q.2.length ≤ p.1

theorem length_patchAll {ps : List (Nat × Bytes)} {h : Bytes} (hfits : Fits ps h.length) :
    (patchAll h ps).length = h.length := by
  induction ps generalizing h with
  | nil =>
      rfl
  | cons p ps ih =>
      have hp := length_patch (hfits p (by simp))
      have hps : Fits ps (patch h p.1 p.2).length := by
        rw [hp]
        exact fun q hq => hfits q (by simp [hq])
      exact (ih hps).trans hp

theorem field_patchAll_of_clear {ps : List (Nat × Bytes)} {h : Bytes} {off len : Nat}
    (hfits : Fits ps h.length) (hclear : Clear ps off len) :
    field (patchAll h ps) off len = field h off len := by
  induction ps generalizing h with
  | nil =>
      rfl
  | cons p ps ih =>
      have hp := hfits p (by simp)
      have hps : Fits ps (patch h p.1 p.2).length := by
        rw [length_patch hp]
        exact fun q hq => hfits q (by simp [hq])
      have hone : field (patch h p.1 p.2) off len = field h off len := by
        -- Each write is on one side of the field.
        rcases hclear p (by simp) with hbefore | hafter
        · exact field_patch_before (by omega) hbefore
        · exact field_patch_after hp hafter
      exact (ih hps (fun q hq => hclear q (by simp [hq]))).trans hone

/-- A field that the later ones leave alone is read back, followed by what was there before. -/
theorem field_patchAll {before after : List (Nat × Bytes)} {h src : Bytes} {off len : Nat}
    (hfits : Fits (before ++ (off, src) :: after) h.length) (hlen : src.length ≤ len)
    (hafter : Clear after off len) :
    field (patchAll h (before ++ (off, src) :: after)) off len =
      src ++ field (patchAll h before) (off + src.length) (len - src.length) := by
  have hbefore : (patchAll h before).length = h.length :=
    length_patchAll (fun p hp => hfits p (by simp [hp]))
  have hsrc : off + src.length ≤ h.length := hfits (off, src) (by simp)
  have hstep : patchAll h (before ++ (off, src) :: after) =
      patchAll (patch (patchAll h before) off src) after := by
    simp [patchAll]
  have hfits' : Fits after (patch (patchAll h before) off src).length := by
    rw [length_patch (by omega), hbefore]
    exact fun p hp => hfits p (by simp [hp])
  rw [hstep, field_patchAll_of_clear hfits' hafter, field_patch_within (by omega) hlen]

/-- A field shorter than its place, in a record of zeros that nothing else writes there. -/
theorem field_patchAll_zeros {ps before after : List (Nat × Bytes)} {src : Bytes}
    {n off len : Nat} (hps : ps = before ++ (off, src) :: after) (hfits : Fits ps n)
    (hlen : src.length ≤ len) (hroom : off + len ≤ n) (hbefore : Clear before off len)
    (hafter : Clear after off len) :
    field (patchAll (List.replicate n 0) ps) off len =
      src ++ List.replicate (len - src.length) 0 := by
  subst hps
  have hzero : (List.replicate n (0 : UInt8)).length = n := List.length_replicate
  have hfits' : Fits (before ++ (off, src) :: after) (List.replicate n (0 : UInt8)).length := by
    rwa [hzero]
  -- What the field had before it was written is still zero behind the new bytes.
  have hold : field (patchAll (List.replicate n 0) before) (off + src.length) (len - src.length) =
      List.replicate (len - src.length) 0 := by
    rw [field_patchAll_of_clear (fun p hp => hfits' p (by simp [hp])),
      field_replicate _ _ _ _ (by omega)]
    intro p hp
    rcases hbefore p hp with h | h
    · exact Or.inl (by omega)
    · exact Or.inr (by omega)
  rw [field_patchAll hfits' hlen hafter, hold]

/-- Fields that do not overlap are all read back. -/
theorem field_patchAll_of_mem {ps : List (Nat × Bytes)} {h src : Bytes} {off len : Nat}
    (hfits : Fits ps h.length)
    (hdisj : ps.Pairwise Apart)
    (hmem : (off, src) ∈ ps) (hlen : src.length = len) :
    field (patchAll h ps) off len = src := by
  rcases List.append_of_mem hmem with ⟨before, after, rfl⟩
  have hafter : Clear after off len := by
    intro q hq
    have hpq := (List.pairwise_cons.1 (List.pairwise_append.1 hdisj).2.1).1 q hq
    rwa [Apart, hlen] at hpq
  rw [field_patchAll hfits (by omega) hafter]
  simp [field, hlen]

/-! ## The reader -/

structure Entry where
  path : Bytes
  mode : Nat
  content : Bytes
  deriving DecidableEq, Repr

structure Header where
  path : Bytes
  mode : Nat
  size : Nat

/-- A text field: up to the first NUL, or the whole field. -/
def text (f : Bytes) : Bytes :=
  f.takeWhile fun b => b ≠ 0

def isOctal (b : UInt8) : Bool :=
  48 ≤ b && b ≤ 55

/-- A number field: octal digits, ended by a NUL, a space or the end of the field. -/
def octal? (f : Bytes) : Option Nat :=
  let ds := f.takeWhile isOctal
  let r := f.dropWhile isOctal
  if ds = [] then none
  else if r = [] ∨ r.head? = some 0 ∨ r.head? = some 32 then some (readNat 8 ds)
  else none

/-- The sum of the bytes of a header, the checksum field read as spaces. -/
def checksum (block : Bytes) : Nat :=
  ((patch block 148 (List.replicate 8 32)).map UInt8.toNat).sum

def magic : Bytes := [117, 115, 116, 97, 114, 0]

/-- A header of a regular file whose checksum and magic are right. -/
def readHeader (block : Bytes) : Option Header := do
  let sum ← octal? (field block 148 8)
  let mode ← octal? (field block 100 8)
  let size ← octal? (field block 124 12)
  if sum = checksum block ∧ field block 257 6 = magic ∧ field block 156 1 = [48] then
    let name := text (field block 0 100)
    let pre := text (field block 345 155)
    some { path := if pre = [] then name else pre ++ 47 :: name, mode := mode, size := size }
  else
    none

/-- The zero bytes after a content of `n` bytes. -/
def padding (n : Nat) : Nat :=
  (512 - n % 512) % 512

def readEntries : Nat → Bytes → Option (List Entry)
  | 0, _ => none
  | n + 1, bs =>
      -- Two zero blocks end the archive, whatever follows.
      if bs.take 1024 = List.replicate 1024 0 then
        some []
      else do
        let h ← readHeader (bs.take 512)
        let rest := bs.drop 512
        -- A truncated content is refused, not shortened.
        if rest.length < h.size + padding h.size then
          none
        else do
          let tail ← readEntries n (rest.drop (h.size + padding h.size))
          some ({ path := h.path, mode := h.mode, content := rest.take h.size } :: tail)

/-- Read an archive; an entry takes at least one block, so the number of blocks bounds the entries. -/
def read (bs : Bytes) : Option (List Entry) :=
  readEntries (bs.length / 512 + 1) bs

/-! ## Reading fields back -/

theorem sum_bytes_le (bs : Bytes) : (bs.map UInt8.toNat).sum ≤ 255 * bs.length := by
  induction bs with
  | nil =>
      simp
  | cons b bs ih =>
      have hb := b.toNat_lt
      simp only [List.map_cons, List.sum_cons, List.length_cons]
      omega

/-- The checksum does not depend on what the checksum field holds. -/
theorem checksum_patch {block f : Bytes} (hlen : block.length = 512) (hf : f.length = 8) :
    checksum (patch block 148 f) = checksum block := by
  unfold checksum
  rw [patch_patch_self (by omega) (by rw [hf, List.length_replicate])]

/-- A checksum fits the six octal digits it is written with. -/
theorem checksum_lt {block : Bytes} (hlen : block.length = 512) : checksum block < 8 ^ 6 := by
  have hpatch : (patch block 148 (List.replicate 8 32)).length = 512 := by
    rw [length_patch (by rw [List.length_replicate]; omega), hlen]
  have hsum := sum_bytes_le (patch block 148 (List.replicate 8 32))
  rw [hpatch] at hsum
  unfold checksum
  omega

theorem text_append_zeros {t : Bytes} (ht : (0 : UInt8) ∉ t) (k : Nat) :
    text (t ++ List.replicate k 0) = t := by
  have hpos : ∀ b ∈ t, (decide (b ≠ 0)) = true := by
    intro b hb
    have hne : b ≠ 0 := by
      rintro rfl
      exact ht hb
    simp [hne]
  unfold text
  rw [List.takeWhile_append_of_pos hpos]
  simp

theorem octal?_padded (w n : Nat) (r : Bytes) (hr : r.head? = some 0) :
    octal? (padded 8 w n ++ r) = some n := by
  have hdigits : ∀ b ∈ padded 8 w n, isOctal b = true := by
    have hall : ∀ d < 8, isOctal (digitByte d) = true := by decide
    intro b hb
    rcases mem_padded (by omega) w n hb with ⟨d, hd, rfl⟩
    exact hall d hd
  -- The terminator is no digit, so the digit run ends there.
  have hstop : r.takeWhile isOctal = [] ∧ r.dropWhile isOctal = r := by
    cases r with
    | nil =>
        cases hr
    | cons b r =>
        cases hr
        have hb : isOctal 0 = false := by decide
        simp [hb]
  have hne : padded 8 w n ≠ [] := by
    simp [padded, digitBytes_ne_nil]
  have htake : (padded 8 w n ++ r).takeWhile isOctal = padded 8 w n := by
    rw [List.takeWhile_append_of_pos hdigits, hstop.1, List.append_nil]
  have hdrop : (padded 8 w n ++ r).dropWhile isOctal = r := by
    rw [List.dropWhile_append_of_pos hdigits, hstop.2]
  simp only [octal?, htake, hdrop, if_neg hne, hr, true_or, or_true, if_true]
  rw [readNat_padded (by omega) (by omega)]

theorem readHeader_zeros : readHeader (List.replicate 512 0) = none := by
  have hfield : octal? (field (List.replicate 512 0) 148 8) = none := by
    rw [field_replicate 512 148 8 0 (by omega)]
    decide
  unfold readHeader
  rw [hfield]
  rfl

/-- One entry: a good header, its content and the padding, then the rest of the archive. -/
theorem readEntries_cons {n : Nat} {block content rest : Bytes} {h : Header}
    (hlen : block.length = 512) (hh : readHeader block = some h) (hsize : content.length = h.size) :
    readEntries (n + 1)
        (block ++ (content ++ (List.replicate (padding h.size) 0 ++ rest))) =
      (readEntries n rest).map fun tail =>
        { path := h.path, mode := h.mode, content := content } :: tail := by
  have hblock : (block ++ (content ++ (List.replicate (padding h.size) 0 ++ rest))).take 512 =
      block := by
    rw [List.take_append_of_le_length (by omega), List.take_of_length_le (by omega)]
  have hdrop : (block ++ (content ++ (List.replicate (padding h.size) 0 ++ rest))).drop 512 =
      content ++ (List.replicate (padding h.size) 0 ++ rest) := by
    rw [List.drop_append, List.drop_of_length_le (by omega), List.nil_append, hlen]
    simp
  have hzero : ¬ (block ++ (content ++ (List.replicate (padding h.size) 0 ++ rest))).take 1024 =
      List.replicate 1024 0 := by
    intro hz
    -- Two leading zero blocks would make the header itself a zero block.
    have hz' := congrArg (List.take 512) hz
    rw [List.take_take, List.take_replicate] at hz'
    simp only [Nat.min_def] at hz'
    norm_num at hz'
    rw [hblock] at hz'
    rw [hz', readHeader_zeros] at hh
    cases hh
  have hcontent : (content ++ (List.replicate (padding h.size) 0 ++ rest)).take h.size = content := by
    rw [List.take_append_of_le_length (by omega), List.take_of_length_le (by omega)]
  have hrest : (content ++ (List.replicate (padding h.size) 0 ++ rest)).drop
      (h.size + padding h.size) = rest := by
    rw [← List.append_assoc, List.drop_append, List.drop_of_length_le (by simp; omega),
      List.nil_append]
    simp [hsize]
  have hroom : ¬ (content ++ (List.replicate (padding h.size) 0 ++ rest)).length <
      h.size + padding h.size := by
    simp only [List.length_append, List.length_replicate]
    omega
  simp only [readEntries, hzero, if_false, hblock, hdrop, hh, Option.bind_eq_bind, Option.bind_some,
    hroom, hcontent, hrest]
  cases readEntries n rest <;> rfl

theorem readEntries_trailer (n : Nat) : readEntries (n + 1) (List.replicate 1024 0) = some [] := by
  have htake : (List.replicate 1024 (0 : UInt8)).take 1024 = List.replicate 1024 0 :=
    List.take_of_length_le (by rw [List.length_replicate])
  rw [readEntries, if_pos htake]

end Ustar
end Lib
end Aivcs
