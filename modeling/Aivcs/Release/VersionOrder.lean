import Aivcs.Lib.Lexicographic
import Aivcs.Release.Semver

/-!
# Release.VersionOrder — precedence of versions

`cmp_version` compares the three numbers, then the pre-release suffixes identifier by identifier.  Beside it
stands what it should decide:

* `IdentifierLt`, `Precedes` — precedence of identifiers and of versions;
* `SemverOrder` — a total preorder whose strict part is `Precedes`, and whose equivalence is `SamePrecedence`;
* `semverOrder_cmpVersion`.
-/

namespace Aivcs
namespace Release

open Lib

/-! ## The comparison -/

/-- `cmp_identifier`.  The digits of numerals are one byte each, so the lengths are those of the texts. -/
def cmpIdentifier (x y : List Char) : Ordering :=
  match decide (Numeral x), decide (Numeral y) with
  | true, true =>
      let xt := dropZeros x
      let yt := dropZeros y
      (compare xt.length yt.length).then (compare xt yt)
  | true, false => .lt
  | false, true => .gt
  | false, false => compare x y

/-- The loop of `cmp_prerelease` over the identifiers of both sides. -/
def cmpIdentifiers : List (List Char) → List (List Char) → Ordering
  | [], [] => .eq
  | [], _ :: _ => .lt
  | _ :: _, [] => .gt
  | x :: ai, y :: bi =>
      let ord := cmpIdentifier x y
      if ord ≠ .eq then ord else cmpIdentifiers ai bi

/-- `split('.')`. -/
def identifiers (pre : String) : List (List Char) :=
  pre.toList.splitOn '.'

def cmpPrerelease (a b : String) : Ordering :=
  cmpIdentifiers (identifiers a) (identifiers b)

/-- `tuple_cmp`: the order of the triples. -/
def Semver.tupleCmp (v other : Semver) : Ordering :=
  (compare v.major other.major).then ((compare v.minor other.minor).then (compare v.patch other.patch))

/-- The match of `cmp_version` on the suffixes: a pre-release comes before its release. -/
def cmpPre : Option String → Option String → Ordering
  | none, none => .eq
  | some _, none => .lt
  | none, some _ => .gt
  | some a, some b => cmpPrerelease a b

def Semver.cmpVersion (v other : Semver) : Ordering :=
  if v.tupleCmp other ≠ .eq then v.tupleCmp other else cmpPre v.pre other.pre

/-! ## Precedence -/

/-- Numerals by value and below every other identifier, the others as texts. -/
inductive IdentifierLt : List Char → List Char → Prop where
  | numeric {x y : List Char} : Numeral x → Numeral y → decimal x < decimal y → IdentifierLt x y
  | mixed {x y : List Char} : Numeral x → ¬ Numeral y → IdentifierLt x y
  | text {x y : List Char} : ¬ Numeral x → ¬ Numeral y → TextLt x y → IdentifierLt x y

/-- The same text, or numerals with one value. -/
def SameIdentifier (x y : List Char) : Prop :=
  x = y ∨ Numeral x ∧ Numeral y ∧ decimal x = decimal y

def Semver.numbers (v : Semver) : UInt64 × UInt64 × UInt64 :=
  (v.major, v.minor, v.patch)

def NumbersLt : UInt64 × UInt64 × UInt64 → UInt64 × UInt64 × UInt64 → Prop :=
  Prod.Lex (· < ·) (Prod.Lex (· < ·) (· < ·))

/-- The precedence of versions.  A version with a suffix comes before the one without; of two suffixes the first
identifiers that differ decide, and the one with identifiers left over comes later. -/
inductive Precedes : Semver → Semver → Prop where
  | numbers {v w : Semver} : NumbersLt v.numbers w.numbers → Precedes v w
  | release {v w : Semver} {a : String} : v.numbers = w.numbers → v.pre = some a → w.pre = none → Precedes v w
  | prerelease {v w : Semver} {a b : String} : v.numbers = w.numbers → v.pre = some a → w.pre = some b →
      LexLt IdentifierLt SameIdentifier (identifiers a) (identifiers b) → Precedes v w

/-- The same numbers, and suffixes with the same identifiers one by one. -/
structure SamePrecedence (v w : Semver) : Prop where
  numbers : v.numbers = w.numbers
  pre : Option.Rel (fun a b => List.Forall₂ SameIdentifier (identifiers a) (identifiers b)) v.pre w.pre

/-- A total preorder with these as its strict part and its equivalence. -/
structure SemverOrder (cmp : Semver → Semver → Ordering) : Prop where
  refl : ∀ v, cmp v v = .eq
  swap : ∀ v w, cmp w v = (cmp v w).swap
  total : ∀ v w, (cmp v w).isLE = true ∨ (cmp w v).isLE = true
  trans : ∀ u v w, (cmp u v).isLE = true → (cmp v w).isLE = true → (cmp u w).isLE = true
  lt_iff : ∀ v w, cmp v w = .lt ↔ Precedes v w
  eq_iff : ∀ v w, cmp v w = .eq ↔ SamePrecedence v w

/-! ## Identifiers -/

section Identifiers

variable {x y : List Char}

/-- Numerals first, by value, then the others, by their text: the three keys of an identifier. -/
def rank (x : List Char) : Nat :=
  if Numeral x then 0 else 1

def value (x : List Char) : Nat :=
  if Numeral x then decimal x else 0

def rest (x : List Char) : List Char :=
  if Numeral x then [] else x

theorem cmpIdentifier_numerals (hx : Numeral x) (hy : Numeral y) :
    cmpIdentifier x y = compare (decimal x) (decimal y) := by
  rw [cmpIdentifier, decide_eq_true hx, decide_eq_true hy]
  exact compare_dropZeros hx.2 hy.2

theorem cmpIdentifier_mixed (hx : Numeral x) (hy : ¬ Numeral y) : cmpIdentifier x y = .lt := by
  rw [cmpIdentifier, decide_eq_true hx, decide_eq_false hy]

theorem cmpIdentifier_mixed' (hx : ¬ Numeral x) (hy : Numeral y) : cmpIdentifier x y = .gt := by
  rw [cmpIdentifier, decide_eq_false hx, decide_eq_true hy]

theorem cmpIdentifier_texts (hx : ¬ Numeral x) (hy : ¬ Numeral y) : cmpIdentifier x y = compare x y := by
  rw [cmpIdentifier, decide_eq_false hx, decide_eq_false hy]

theorem cmpIdentifier_eq_compareLex :
    cmpIdentifier = compareLex (compareOn rank) (compareLex (compareOn value) (compareOn rest)) := by
  funext x y
  by_cases hx : Numeral x <;> by_cases hy : Numeral y
  -- Two numerals differ in their value only, two others in their text only.
  · rw [cmpIdentifier_numerals hx hy]
    simp [compareLex, compareOn, rank, value, rest, hx, hy]
  · rw [cmpIdentifier_mixed hx hy, compareLex, compareOn, rank, rank, if_pos hx, if_neg hy]
    rfl
  · rw [cmpIdentifier_mixed' hx hy, compareLex, compareOn, rank, rank, if_neg hx, if_pos hy]
    rfl
  · rw [cmpIdentifier_texts hx hy]
    simp [compareLex, compareOn, rank, value, rest, hx, hy]

instance : Std.TransCmp cmpIdentifier := by
  rw [cmpIdentifier_eq_compareLex]
  infer_instance

theorem cmpIdentifier_eq_lt_iff (x y : List Char) : cmpIdentifier x y = .lt ↔ IdentifierLt x y := by
  constructor
  · intro h
    by_cases hx : Numeral x <;> by_cases hy : Numeral y
    · rw [cmpIdentifier_numerals hx hy] at h
      exact .numeric hx hy (Nat.compare_eq_lt.mp h)
    · exact .mixed hx hy
    · rw [cmpIdentifier_mixed' hx hy] at h
      cases h
    · rw [cmpIdentifier_texts hx hy] at h
      exact .text hx hy ((compare_text_eq_lt_iff x y).mp h)
  · intro h
    cases h with
    | numeric hx hy hval =>
        rw [cmpIdentifier_numerals hx hy]
        exact Nat.compare_eq_lt.mpr hval
    | mixed hx hy =>
        exact cmpIdentifier_mixed hx hy
    | text hx hy htext =>
        rw [cmpIdentifier_texts hx hy]
        exact (compare_text_eq_lt_iff x y).mpr htext

theorem cmpIdentifier_eq_eq_iff (x y : List Char) : cmpIdentifier x y = .eq ↔ SameIdentifier x y := by
  constructor
  · intro h
    by_cases hx : Numeral x <;> by_cases hy : Numeral y
    · rw [cmpIdentifier_numerals hx hy] at h
      exact .inr ⟨hx, hy, Nat.compare_eq_eq.mp h⟩
    · rw [cmpIdentifier_mixed hx hy] at h
      cases h
    · rw [cmpIdentifier_mixed' hx hy] at h
      cases h
    · rw [cmpIdentifier_texts hx hy] at h
      exact .inl (Std.LawfulEqOrd.eq_of_compare h)
  · rintro (rfl | ⟨hx, hy, hval⟩)
    · exact Std.ReflCmp.compare_self
    · rw [cmpIdentifier_numerals hx hy]
      exact Nat.compare_eq_eq.mpr hval

/-- The loop is the lexicographic comparison. -/
theorem cmpIdentifiers_eq_compareLex (xs ys : List (List Char)) :
    cmpIdentifiers xs ys = List.compareLex cmpIdentifier xs ys := by
  induction xs generalizing ys with
  | nil =>
      cases ys <;> rfl
  | cons x xs ih =>
      cases ys with
      | nil =>
          rfl
      | cons y ys =>
          rw [cmpIdentifiers, List.compareLex_cons_cons, ih]
          cases cmpIdentifier x y <;> rfl

theorem cmpPrerelease_eq_lt_iff (a b : String) :
    cmpPrerelease a b = .lt ↔ LexLt IdentifierLt SameIdentifier (identifiers a) (identifiers b) := by
  rw [cmpPrerelease, cmpIdentifiers_eq_compareLex]
  exact compareLex_eq_lt_iff cmpIdentifier_eq_lt_iff cmpIdentifier_eq_eq_iff _ _

theorem cmpPrerelease_eq_eq_iff (a b : String) :
    cmpPrerelease a b = .eq ↔ List.Forall₂ SameIdentifier (identifiers a) (identifiers b) := by
  rw [cmpPrerelease, cmpIdentifiers_eq_compareLex]
  exact compareLex_eq_eq_iff cmpIdentifier_eq_eq_iff _ _

end Identifiers

/-! ## Versions -/

section Versions

/-- The keys of a suffix: whether there is none, and its identifiers. -/
def preKey (pre : Option String) : Bool × List (List Char) :=
  (pre.isNone, (pre.map identifiers).getD [])

theorem cmpPre_eq (a b : Option String) :
    cmpPre a b = compareLex (compareOn Prod.fst)
      (fun p q => List.compareLex cmpIdentifier (Prod.snd p) (Prod.snd q)) (preKey a) (preKey b) := by
  cases a <;> cases b
  · rfl
  · rfl
  · rfl
  · simp [cmpPre, cmpPrerelease, cmpIdentifiers_eq_compareLex, compareLex, compareOn, preKey]

instance : Std.TransCmp cmpPre := by
  have hkeys : Std.TransCmp (α := Bool × List (List Char)) (compareLex (compareOn Prod.fst)
      fun p q => List.compareLex cmpIdentifier (Prod.snd p) (Prod.snd q)) := by
    have hsnd := transCmp_comap (List.compareLex cmpIdentifier) (Prod.snd (α := Bool))
    infer_instance
  have heq : cmpPre = _ := funext fun a => funext fun b => cmpPre_eq a b
  rw [heq]
  exact transCmp_comap _ preKey

theorem cmpVersion_eq_then (v w : Semver) : v.cmpVersion w = (v.tupleCmp w).then (cmpPre v.pre w.pre) := by
  rw [Semver.cmpVersion]
  cases v.tupleCmp w <;> rfl

instance : Std.TransCmp Semver.tupleCmp :=
  inferInstanceAs (Std.TransCmp (compareLex (compareOn Semver.major)
    (compareLex (compareOn Semver.minor) (compareOn Semver.patch))))

instance : Std.TransCmp Semver.cmpVersion := by
  -- The suffixes decide after the triples.
  have hpre := transCmp_comap cmpPre Semver.pre
  have heq : Semver.cmpVersion = compareLex Semver.tupleCmp fun v w => cmpPre v.pre w.pre :=
    funext fun v => funext fun w => cmpVersion_eq_then v w
  rw [heq]
  infer_instance

theorem compare_number_eq_lt_iff (a b : UInt64) : compare a b = .lt ↔ a < b :=
  compareOfLessAndEq_eq_lt

theorem tupleCmp_eq_lt_iff (v w : Semver) : v.tupleCmp w = .lt ↔ NumbersLt v.numbers w.numbers := by
  simp only [Semver.tupleCmp, NumbersLt, Semver.numbers, Prod.lex_def, Ordering.then_eq_lt,
    compare_number_eq_lt_iff, Std.LawfulEqOrd.compare_eq_iff_eq]

theorem tupleCmp_eq_eq_iff (v w : Semver) : v.tupleCmp w = .eq ↔ v.numbers = w.numbers := by
  simp only [Semver.tupleCmp, Semver.numbers, Ordering.then_eq_eq, Std.LawfulEqOrd.compare_eq_iff_eq,
    Prod.mk.injEq]

theorem cmpVersion_eq_lt_iff (v w : Semver) : v.cmpVersion w = .lt ↔ Precedes v w := by
  rw [cmpVersion_eq_then, Ordering.then_eq_lt, tupleCmp_eq_lt_iff, tupleCmp_eq_eq_iff]
  constructor
  · rintro (hlt | ⟨hnumbers, hpre⟩)
    · exact .numbers hlt
    -- A version without a suffix comes before none with the same numbers.
    · cases hv : v.pre with
      | none =>
          cases hw : w.pre <;> rw [hv, hw] at hpre <;> cases hpre
      | some a =>
          cases hw : w.pre with
          | none =>
              exact .release hnumbers hv hw
          | some b =>
              rw [hv, hw] at hpre
              exact .prerelease hnumbers hv hw ((cmpPrerelease_eq_lt_iff a b).mp hpre)
  · intro h
    cases h with
    | numbers hlt =>
        exact .inl hlt
    | release hnumbers hv hw =>
        refine .inr ⟨hnumbers, ?_⟩
        rw [hv, hw]
        rfl
    | prerelease hnumbers hv hw hlt =>
        refine .inr ⟨hnumbers, ?_⟩
        rw [hv, hw]
        exact (cmpPrerelease_eq_lt_iff _ _).mpr hlt

theorem cmpPre_eq_eq_iff (p q : Option String) : cmpPre p q = .eq ↔
    Option.Rel (fun a b => List.Forall₂ SameIdentifier (identifiers a) (identifiers b)) p q := by
  constructor
  · intro h
    cases p <;> cases q
    · exact .none
    · cases h
    · cases h
    · exact .some ((cmpPrerelease_eq_eq_iff _ _).mp h)
  · intro h
    cases h with
    | none =>
        rfl
    | some hsame =>
        exact (cmpPrerelease_eq_eq_iff _ _).mpr hsame

theorem cmpVersion_eq_eq_iff (v w : Semver) : v.cmpVersion w = .eq ↔ SamePrecedence v w := by
  rw [cmpVersion_eq_then, Ordering.then_eq_eq, tupleCmp_eq_eq_iff, cmpPre_eq_eq_iff]
  exact ⟨fun ⟨hnumbers, hpre⟩ => ⟨hnumbers, hpre⟩, fun h => ⟨h.numbers, h.pre⟩⟩

theorem semverOrder_cmpVersion : SemverOrder Semver.cmpVersion where
  refl _ := Std.ReflCmp.compare_self
  swap _ _ := Std.OrientedCmp.eq_swap
  total v w := by
    have hswap : w.cmpVersion v = (v.cmpVersion w).swap := Std.OrientedCmp.eq_swap
    rw [hswap]
    cases v.cmpVersion w <;> simp
  trans _ _ _ := Std.TransCmp.isLE_trans
  lt_iff := cmpVersion_eq_lt_iff
  eq_iff := cmpVersion_eq_eq_iff

end Versions

end Release
end Aivcs
