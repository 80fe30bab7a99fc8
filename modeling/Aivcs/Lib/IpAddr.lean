import Mathlib.Data.List.TakeWhile

/-!
# IpAddr — the textual form of IP addresses

The parser of the Rust standard library (`str::parse::<IpAddr>`): an IPv4 address is four decimal octets without
leading zeros, an IPv6 address groups of up to four hexadecimal digits with at most one `::`, the last two of
which may be an IPv4 address.  Each reader takes what it needs off the front of the text.
-/

namespace Aivcs
namespace Lib

inductive IpAddr where
  | v4 (a b c d : UInt8)
  | v6 (segments : List UInt16)
  deriving DecidableEq

namespace IpAddr

/-! ## Readers -/

def hexDigit (c : Char) : Option Nat :=
  if '0' ≤ c ∧ c ≤ '9' then some (c.toNat - '0'.toNat)
  else if 'a' ≤ c ∧ c ≤ 'f' then some (c.toNat - 'a'.toNat + 10)
  else if 'A' ≤ c ∧ c ≤ 'F' then some (c.toNat - 'A'.toNat + 10)
  else none

/-- `char::to_digit`, for a radix of at most 16. -/
def toDigit (radix : Nat) (c : Char) : Option Nat :=
  (hexDigit c).filter (· < radix)

/-- `read_number`: at least one digit and at most `maxDigits`. -/
def readNumber (radix maxDigits : Nat) (allowZeroPrefix : Bool) (cs : List Char) : Option (Nat × List Char) :=
  let ds := cs.takeWhile fun c => (toDigit radix c).isSome
  if ds = [] ∨ maxDigits < ds.length ∨ allowZeroPrefix = false ∧ ds.head? = some '0' ∧ 1 < ds.length then none
  else
    some (ds.foldl (fun n c => radix * n + (toDigit radix c).getD 0) 0,
      cs.dropWhile fun c => (toDigit radix c).isSome)

def readGivenChar (target : Char) : List Char → Option (List Char)
  | c :: cs => if c = target then some cs else none
  | [] => none

/-- `read_separator`: the separator stands before every group but the first. -/
def readSeparator {T : Type} (sep : Char) (first : Bool) (inner : List Char → Option (T × List Char))
    (cs : List Char) : Option (T × List Char) :=
  if first then inner cs else (readGivenChar sep cs).bind inner

/-- A decimal octet. -/
def readOctet (cs : List Char) : Option (UInt8 × List Char) := do
  let (n, cs) ← readNumber 10 3 false cs
  if n < 256 then some (UInt8.ofNat n, cs) else none

def readIpv4Addr (cs : List Char) : Option ((UInt8 × UInt8 × UInt8 × UInt8) × List Char) := do
  let (a, cs) ← readSeparator '.' true readOctet cs
  let (b, cs) ← readSeparator '.' false readOctet cs
  let (c, cs) ← readSeparator '.' false readOctet cs
  let (d, cs) ← readSeparator '.' false readOctet cs
  some ((a, b, c, d), cs)

/-- Two octets as a group (`from_be_bytes`). -/
def groupOf (a b : UInt8) : UInt16 :=
  UInt16.ofNat (256 * a.toNat + b.toNat)

/-- `read_groups`: up to `limit` groups, and whether the last two are an IPv4 address. -/
def readGroups : (limit : Nat) → (first : Bool) → List Char → (List UInt16 × Bool) × List Char
  | 0, _, cs => (([], false), cs)
  | limit + 1, first, cs =>
      -- An IPv4 address takes two groups.
      match if 0 < limit then readSeparator ':' first readIpv4Addr cs else none with
      | some ((a, b, c, d), rest) => (([groupOf a b, groupOf c d], true), rest)
      | none =>
          match readSeparator ':' first (readNumber 16 4 true) cs with
          | some (g, rest) =>
              let ((groups, ipv4), rest) := readGroups limit false rest
              ((UInt16.ofNat g :: groups, ipv4), rest)
          | none => (([], false), cs)

def readIpv6Addr (cs : List Char) : Option (List UInt16 × List Char) :=
  let ((head, headIpv4), rest) := readGroups 8 true cs
  if head.length = 8 then some (head, rest)
  -- An IPv4 address may only come last, and `::` stands for one group at least.
  else if headIpv4 then none
  else do
    let rest ← readGivenChar ':' rest
    let rest ← readGivenChar ':' rest
    let ((tail, _), rest) := readGroups (8 - (head.length + 1)) true rest
    some (head ++ List.replicate (8 - head.length - tail.length) 0 ++ tail, rest)

/-- `read_ip_addr`. -/
def readIpAddr (cs : List Char) : Option (IpAddr × List Char) :=
  match readIpv4Addr cs with
  | some ((a, b, c, d), rest) => some (.v4 a b c d, rest)
  | none => (readIpv6Addr cs).map fun (segments, rest) => (.v6 segments, rest)

/-- `str::parse::<IpAddr>`: nothing may be left over. -/
def parse (cs : List Char) : Option IpAddr :=
  match readIpAddr cs with
  | some (ip, []) => some ip
  | _ => none

example : parse "10.0.0.1".toList = some (.v4 10 0 0 1) := by decide

example : parse "::1".toList = some (.v6 [0, 0, 0, 0, 0, 0, 0, 1]) := by decide

/-! ## Characters -/

/-- What an address is written with: digits, dots and colons. -/
def AddressChar (c : Char) : Prop :=
  (toDigit 16 c).isSome = true ∨ c = '.' ∨ c = ':'

instance (c : Char) : Decidable (AddressChar c) :=
  inferInstanceAs (Decidable (_ ∨ _))

/-- The second text is what is left of the first after characters of an address. -/
def Reads (cs rest : List Char) : Prop :=
  ∃ front, cs = front ++ rest ∧ ∀ c ∈ front, AddressChar c

section Reads

variable {cs rest rest' : List Char}

theorem Reads.refl (cs : List Char) : Reads cs cs :=
  ⟨[], rfl, fun _ h => absurd h List.not_mem_nil⟩

theorem Reads.trans (h : Reads cs rest) (h' : Reads rest rest') : Reads cs rest' := by
  rcases h with ⟨front, rfl, hfront⟩
  rcases h' with ⟨middle, rfl, hmiddle⟩
  refine ⟨front ++ middle, (List.append_assoc _ _ _).symm, fun c hc => ?_⟩
  rcases List.mem_append.mp hc with hc | hc
  · exact hfront c hc
  · exact hmiddle c hc

/-- A reader that succeeds has taken characters of an address. -/
def ReadsOnly {T : Type} (read : List Char → Option (T × List Char)) : Prop :=
  ∀ {cs rest : List Char} {v : T}, read cs = some (v, rest) → Reads cs rest

theorem toDigit_mono {radix : Nat} (hradix : radix ≤ 16) {c : Char} (h : (toDigit radix c).isSome = true) :
    (toDigit 16 c).isSome = true := by
  rw [toDigit, Option.isSome_filter, Option.any_eq_true] at h ⊢
  rcases h with ⟨d, hd, hlt⟩
  exact ⟨d, hd, decide_eq_true (Nat.lt_of_lt_of_le (of_decide_eq_true hlt) hradix)⟩

theorem readNumber_reads {radix : Nat} (hradix : radix ≤ 16) (maxDigits : Nat) (allowZeroPrefix : Bool) :
    ReadsOnly (readNumber radix maxDigits allowZeroPrefix) := by
  intro cs rest n h
  rw [readNumber, Option.ite_none_left_eq_some, Option.some_inj, Prod.mk.injEq] at h
  rcases h with ⟨-, -, rfl⟩
  refine ⟨_, (List.takeWhile_append_dropWhile).symm, fun c hc => .inl ?_⟩
  have hdigit : (toDigit radix c).isSome = true :=
    List.mem_takeWhile_imp (p := fun c => (toDigit radix c).isSome) hc
  exact toDigit_mono hradix hdigit

theorem readGivenChar_reads {target : Char} (htarget : AddressChar target)
    (h : readGivenChar target cs = some rest) : Reads cs rest := by
  cases cs with
  | nil =>
      cases h
  | cons c cs =>
      rw [readGivenChar, Option.ite_none_right_eq_some, Option.some_inj] at h
      rcases h with ⟨rfl, rfl⟩
      exact ⟨[c], rfl, fun d hd => List.mem_singleton.mp hd ▸ htarget⟩

theorem readSeparator_reads {T : Type} {sep : Char} {first : Bool} {inner : List Char → Option (T × List Char)}
    (hsep : AddressChar sep) (hinner : ReadsOnly inner) : ReadsOnly (readSeparator sep first inner) := by
  intro cs rest v h
  rw [readSeparator] at h
  split at h
  · exact hinner h
  · rcases Option.bind_eq_some_iff.mp h with ⟨middle, hmiddle, hrest⟩
    exact (readGivenChar_reads hsep hmiddle).trans (hinner hrest)

theorem readOctet_reads : ReadsOnly readOctet := by
  intro cs rest v h
  simp only [readOctet, Option.bind_eq_bind, Option.bind_eq_some_iff, Option.ite_none_right_eq_some,
    Option.some_inj, Prod.mk.injEq] at h
  rcases h with ⟨⟨n, middle⟩, hnumber, -, -, rfl⟩
  exact readNumber_reads (by decide) 3 false hnumber

theorem readIpv4Addr_reads : ReadsOnly readIpv4Addr := by
  intro cs rest v h
  simp only [readIpv4Addr, Option.bind_eq_bind, Option.bind_eq_some_iff, Option.some_inj, Prod.mk.injEq] at h
  rcases h with ⟨⟨a, cs₁⟩, h₁, ⟨b, cs₂⟩, h₂, ⟨c, cs₃⟩, h₃, ⟨d, cs₄⟩, h₄, -, rfl⟩
  have hdot : ∀ first, ReadsOnly (readSeparator '.' first readOctet) := fun first =>
    readSeparator_reads (.inr (.inl rfl)) readOctet_reads
  exact (((hdot true h₁).trans (hdot false h₂)).trans (hdot false h₃)).trans (hdot false h₄)

theorem readGroups_reads (limit : Nat) (first : Bool) (cs : List Char) :
    Reads cs (readGroups limit first cs).2 := by
  have hcolon : AddressChar ':' := .inr (.inr rfl)
  induction limit generalizing first cs with
  | zero =>
      exact Reads.refl cs
  | succ limit ih =>
      rw [readGroups]
      split
      · rename_i hipv4
        split at hipv4
        · exact readSeparator_reads hcolon readIpv4Addr_reads hipv4
        · cases hipv4
      · split
        · rename_i hgroup
          exact (readSeparator_reads hcolon (readNumber_reads (by decide) 4 true) hgroup).trans (ih false _)
        · exact Reads.refl cs

theorem readIpv6Addr_reads : ReadsOnly readIpv6Addr := by
  intro cs rest v h
  have hcolon : AddressChar ':' := .inr (.inr rfl)
  have hhead := readGroups_reads 8 true cs
  rw [readIpv6Addr] at h
  rcases hgroups : readGroups 8 true cs with ⟨⟨head, headIpv4⟩, rest₀⟩
  rw [hgroups] at h hhead
  simp only at h
  split at h
  · cases h
    exact hhead
  · split at h
    · cases h
    · simp only [Option.bind_eq_bind, Option.bind_eq_some_iff, Option.some_inj, Prod.mk.injEq] at h
      rcases h with ⟨rest₁, h₁, rest₂, h₂, -, rfl⟩
      exact ((hhead.trans (readGivenChar_reads hcolon h₁)).trans (readGivenChar_reads hcolon h₂)).trans
        (readGroups_reads _ true rest₂)

theorem readIpAddr_reads : ReadsOnly readIpAddr := by
  intro cs rest v h
  rw [readIpAddr] at h
  split at h
  · rename_i hipv4
    cases h
    exact readIpv4Addr_reads hipv4
  · rcases Option.map_eq_some_iff.mp h with ⟨⟨segments, rest'⟩, hipv6, heq⟩
    cases heq
    exact readIpv6Addr_reads hipv6

theorem addressChar_of_parse {ip : IpAddr} (h : parse cs = some ip) : ∀ c ∈ cs, AddressChar c := by
  rw [parse] at h
  split at h
  · rename_i hread
    rcases readIpAddr_reads hread with ⟨front, rfl, hfront⟩
    rwa [List.append_nil]
  · cases h

end Reads

end IpAddr

end Lib
end Aivcs
