import Aivcs.Lib.Text

/-!
# Digest — collision-free digest functions with prescribed values

Results about content addressing assume a digest function without collisions.  `tableDigest table`
is such a function: on the inputs of the table it has the values given there, and elsewhere it
writes the input out behind a marker.  Taking the table from SHA-256 gives a concrete
collision-free function that agrees with SHA-256 on the inputs of a given run.  `tableHexDigest` is the
same in hexadecimal digits, for programs that rely on the form of a digest.

`hexChars` and `readHexChars` are the two directions of the usual text of a digest: each text of digits, in
either case, is read as the bytes whose text is its lowercase form (`readHexChars_iff`).
-/

namespace Aivcs
namespace Lib

/-- The bytes of an input as characters, behind the marker `x`. -/
def spelled (bs : Bytes) : String :=
  "x" ++ String.ofList (bs.map fun b => Char.ofNat b.toNat)

def tableDigest (table : List (Bytes × String)) (bs : Bytes) : String :=
  (table.lookup bs).getD (spelled bs)

theorem charOfByte_injective : Function.Injective fun b : UInt8 => Char.ofNat b.toNat := by
  intro a b h
  have hval : ∀ c : UInt8, (Char.ofNat c.toNat).toNat = c.toNat := by
    intro c
    have hlt := c.toNat_lt
    have hvalid : c.toNat.isValidChar := Or.inl (by omega)
    rw [Char.ofNat, dif_pos hvalid]
    rfl
  have hnat : a.toNat = b.toNat := by
    have := congrArg Char.toNat h
    simpa [hval] using this
  exact UInt8.toNat_inj.1 hnat

theorem spelled_injective : Function.Injective spelled := by
  intro a b h
  have hlist := String.ofList_injective ((String.append_right_inj _).1 h)
  exact charOfByte_injective.list_map hlist

/-- A lookup with a default is injective when the values of the table are, the defaults are, and no value
of the table is a default. -/
theorem lookup_getD_injective {β : Type} {table : List (Bytes × β)} {f : Bytes → β}
    (hf : Function.Injective f) (hapart : ∀ p ∈ table, ∀ bs, f bs ≠ p.2)
    (hinj : ∀ p ∈ table, ∀ q ∈ table, p.2 = q.2 → p.1 = q.1) :
    Function.Injective fun bs => (table.lookup bs).getD (f bs) := by
  have hmem : ∀ {bs d}, table.lookup bs = some d → (bs, d) ∈ table := by
    intro bs d h
    rcases List.lookup_eq_some_iff.1 h with ⟨l₁, l₂, rfl, -⟩
    simp
  intro a b h
  -- Both inputs in the table, neither, or one of them: then the values tell them apart.
  cases ha : table.lookup a with
  | none =>
      cases hb : table.lookup b with
      | none =>
          simp only [ha, hb] at h
          exact hf h
      | some d =>
          simp only [ha, hb] at h
          exact absurd h (hapart _ (hmem hb) a)
  | some c =>
      cases hb : table.lookup b with
      | none =>
          simp only [ha, hb] at h
          exact absurd h.symm (hapart _ (hmem ha) b)
      | some d =>
          simp only [ha, hb] at h
          exact hinj _ (hmem ha) _ (hmem hb) h

/-- The marker keeps spelled-out inputs apart from the values of the table. -/
theorem tableDigest_injective {table : List (Bytes × String)}
    (hmark : ∀ p ∈ table, (utf8 p.2).head? ≠ some 120)
    (hinj : ∀ p ∈ table, ∀ q ∈ table, p.2 = q.2 → p.1 = q.1) :
    Function.Injective (tableDigest table) := by
  have hspelled : ∀ bs, (utf8 (spelled bs)).head? = some 120 := by
    intro bs
    rw [spelled, utf8_append]
    rfl
  refine lookup_getD_injective spelled_injective ?_ hinj
  intro p hp bs heq
  exact hmark p hp (heq ▸ hspelled bs)

/-! ## Digests in hexadecimal digits -/

/-- The bytes of an input in unary, behind the marker `f`. -/
def unary (bs : Bytes) : String :=
  String.ofList ('f' :: bs.flatMap fun b => List.replicate b.toNat '1' ++ ['0'])

/-- As `tableDigest`, in hexadecimal digits throughout. -/
def tableHexDigest (table : List (Bytes × String)) (bs : Bytes) : String :=
  (table.lookup bs).getD (unary bs)

theorem unary_injective : Function.Injective unary := by
  intro xs ys h
  have hlist := List.cons_injective (String.ofList_injective h)
  clear h
  induction xs generalizing ys with
  | nil =>
      cases ys with
      | nil => rfl
      | cons y ys => simp at hlist
  | cons x xs ih =>
      cases ys with
      | nil => simp at hlist
      | cons y ys =>
          simp only [List.flatMap_cons, List.append_assoc, List.singleton_append] at hlist
          have hzero : ∀ n, '0' ∉ List.replicate n '1' := by simp
          rcases append_sep_inj (hzero _) (hzero _) hlist with ⟨hhead, hrest⟩
          have hbyte : x = y := UInt8.toNat_inj.1 (by simpa using congrArg List.length hhead)
          rw [hbyte, ih hrest]

theorem tableHexDigest_injective {table : List (Bytes × String)}
    (hmark : ∀ p ∈ table, p.2.toList.head? ≠ some 'f')
    (hinj : ∀ p ∈ table, ∀ q ∈ table, p.2 = q.2 → p.1 = q.1) :
    Function.Injective (tableHexDigest table) := by
  refine lookup_getD_injective unary_injective ?_ hinj
  intro p hp bs heq
  refine hmark p hp ?_
  rw [← heq, unary, String.toList_ofList]
  rfl

/-- Every character of a digest is one of the table's or one of the three the unary text has. -/
theorem mem_tableHexDigest {table : List (Bytes × String)} {bs : Bytes} {c : Char}
    (hc : c ∈ (tableHexDigest table bs).toList) :
    (∃ p ∈ table, c ∈ p.2.toList) ∨ c ∈ ['f', '1', '0'] := by
  unfold tableHexDigest at hc
  cases hlookup : table.lookup bs with
  | none =>
      right
      rw [hlookup, Option.getD_none, unary, String.toList_ofList] at hc
      rcases List.mem_cons.1 hc with rfl | hc
      · simp
      · rcases List.mem_flatMap.1 hc with ⟨b, -, hb⟩
        rcases List.mem_append.1 hb with hb | hb
        · simp [List.eq_of_mem_replicate hb]
        · simp [List.mem_singleton.1 hb]
  | some d =>
      rw [hlookup, Option.getD_some] at hc
      rcases List.lookup_eq_some_iff.1 hlookup with ⟨l₁, l₂, rfl, -⟩
      exact Or.inl ⟨(bs, d), by simp, hc⟩

/-! ## Bytes as hexadecimal digits -/

/-- The lowercase digit of a number below 16. -/
def hexChar (d : Nat) : Char :=
  Char.ofNat (if d < 10 then 48 + d else 87 + d)

def hexChars (bs : Bytes) : List Char :=
  bs.flatMap fun b => [hexChar (b.toNat / 16), hexChar (b.toNat % 16)]

/-- The value of a digit in either case. -/
def hexCharVal (c : Char) : Option Nat :=
  let n := c.toNat
  if 48 ≤ n ∧ n ≤ 57 then some (n - 48)
  else if 97 ≤ n ∧ n ≤ 102 then some (n - 87)
  else if 65 ≤ n ∧ n ≤ 70 then some (n - 55)
  else none

/-- Two digits for each byte. -/
def readHexChars : List Char → Option Bytes
  | [] => some []
  | [_] => none
  | a :: b :: rest =>
      match hexCharVal a, hexCharVal b, readHexChars rest with
      | some x, some y, some bs => some (UInt8.ofNat (16 * x + y) :: bs)
      | _, _, _ => none

theorem toLower_hexChar : ∀ d < 16, (hexChar d).toLower = hexChar d := by
  decide

theorem hexCharVal_lt {c : Char} {d : Nat} (h : hexCharVal c = some d) : d < 16 := by
  unfold hexCharVal at h
  grind

/-- A digit is read as the number whose lowercase digit it is. -/
theorem hexCharVal_eq_some_iff {c : Char} {d : Nat} :
    hexCharVal c = some d ↔ d < 16 ∧ c.toLower = hexChar d := by
  have hsmall : ∀ n < 128, ∀ d < 16,
      hexCharVal (Char.ofNat n) = some d ↔ (Char.ofNat n).toLower = hexChar d := by
    decide +kernel
  have hc : Char.ofNat c.toNat = c := Char.ofNat_toNat c
  by_cases hn : c.toNat < 128
  · constructor
    · intro h
      have hd := hexCharVal_lt h
      rw [← hc] at h ⊢
      exact ⟨hd, (hsmall _ hn d hd).1 h⟩
    · rintro ⟨hd, h⟩
      rw [← hc] at h ⊢
      exact (hsmall _ hn d hd).2 h
  · -- Beyond ASCII there is no digit, and making a character lowercase leaves it alone.
    have hlower : c.toLower = c := by
      unfold Char.toLower
      rw [dif_neg]
      simp only [ge_iff_le, UInt32.le_iff_toNat_le]
      have : c.val.toNat = c.toNat := rfl
      rintro ⟨_, hle⟩
      have : ('Z' : Char).val.toNat = 90 := rfl
      omega
    have hdigit : ∀ d < 16, (hexChar d).toNat < 128 := by decide
    constructor
    · intro h
      unfold hexCharVal at h
      grind
    · rintro ⟨hd, h⟩
      rw [hlower] at h
      have := hdigit d hd
      rw [← h] at this
      omega

/-- The two digits of a byte. -/
theorem digits_iff {x y : Nat} (hx : x < 16) (hy : y < 16) (b : UInt8) :
    UInt8.ofNat (16 * x + y) = b ↔ x = b.toNat / 16 ∧ y = b.toNat % 16 := by
  rw [← UInt8.toNat_inj, UInt8.toNat_ofNat']
  have := b.toNat_lt
  omega

theorem readHexChars_cons_cons {a b : Char} {rest : List Char} {byte : UInt8} {bs : Bytes} :
    readHexChars (a :: b :: rest) = some (byte :: bs) ↔
      hexCharVal a = some (byte.toNat / 16) ∧ hexCharVal b = some (byte.toNat % 16) ∧
        readHexChars rest = some bs := by
  rw [readHexChars]
  split
  · rename_i x y bs' ha hb hrest
    have hbyte := digits_iff (hexCharVal_lt ha) (hexCharVal_lt hb) byte
    simp only [ha, hb, hrest, Option.some.injEq, List.cons.injEq, hbyte, and_assoc]
  · rename_i hnone
    constructor
    · intro h
      cases h
    · rintro ⟨ha, hb, hrest⟩
      exact (hnone _ _ _ ha hb hrest).elim

/-- A text is read as bytes exactly when its lowercase form is their digits. -/
theorem readHexChars_iff {cs : List Char} {bs : Bytes} :
    readHexChars cs = some bs ↔ cs.map Char.toLower = hexChars bs := by
  induction bs generalizing cs with
  | nil =>
      match cs with
      | [] => simp [readHexChars, hexChars]
      | [a] => simp [readHexChars, hexChars]
      | a :: b :: rest =>
          rw [readHexChars]
          split <;> simp [hexChars]
  | cons byte bs ih =>
      match cs with
      | [] => simp [readHexChars, hexChars]
      | [a] => simp [readHexChars, hexChars]
      | a :: b :: rest =>
          have hhigh : byte.toNat / 16 < 16 := by
            have := byte.toNat_lt
            omega
          have hlow : byte.toNat % 16 < 16 := Nat.mod_lt _ (by decide)
          rw [readHexChars_cons_cons, hexCharVal_eq_some_iff, hexCharVal_eq_some_iff, ih]
          simp only [hhigh, hlow, true_and, hexChars, List.map_cons, List.flatMap_cons,
            List.cons_append, List.nil_append, List.cons.injEq]

theorem map_toLower_hexChars (bs : Bytes) : (hexChars bs).map Char.toLower = hexChars bs := by
  induction bs with
  | nil =>
      rfl
  | cons b bs ih =>
      have hb := b.toNat_lt
      have hhigh := toLower_hexChar (b.toNat / 16) (by omega)
      have hlow := toLower_hexChar (b.toNat % 16) (by omega)
      simp only [hexChars, List.flatMap_cons, List.map_append, List.map_cons, List.map_nil, hhigh,
        hlow]
      exact congrArg _ ih

/-- What is written is read back. -/
theorem readHexChars_hexChars (bs : Bytes) : readHexChars (hexChars bs) = some bs :=
  readHexChars_iff.2 (map_toLower_hexChars bs)

theorem hexChars_injective : Function.Injective hexChars := by
  intro xs ys h
  have hread := readHexChars_hexChars xs
  rw [h, readHexChars_hexChars] at hread
  exact (Option.some.inj hread).symm

theorem dot_notMem_hexChars (bs : Bytes) : '.' ∉ hexChars bs := by
  have hdigit : ∀ d < 16, hexChar d ≠ '.' := by decide
  intro h
  rcases List.mem_flatMap.1 h with ⟨b, -, hb⟩
  have hlt := b.toNat_lt
  simp only [List.mem_cons, List.not_mem_nil, or_false] at hb
  rcases hb with hb | hb
  · exact hdigit (b.toNat / 16) (by omega) hb.symm
  · exact hdigit (b.toNat % 16) (by omega) hb.symm

end Lib
end Aivcs
