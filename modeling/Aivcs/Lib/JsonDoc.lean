import Mathlib.Data.List.Nodup
import Mathlib.Data.List.Perm.Basic
import Mathlib.Data.List.Sort

/-!
# JsonDoc — JSON documents over any type of numbers

`Doc N` is a document whose numbers are of type `N`: what a number is, how it is compared and how it is
written are left to the program.

* `Same R` compares documents: members without regard to their order, numbers by `R`;
* `sortKeys` puts the members of every object in the order of a key; on documents that repeat no key,
  sorted documents are equal exactly when the documents are the same (`sortKeys_eq_iff`);
* `setMembers` inserts members, replacing those with the same key (`lookup_setMembers`).
-/

namespace Aivcs
namespace Lib

inductive Doc (N : Type) where
  | null
  | bool (b : Bool)
  | num (n : N)
  | str (s : String)
  | arr (xs : List (Doc N))
  | obj (members : List (String × Doc N))

namespace Doc

variable {N M : Type}

/-! ## Induction -/

mutual

/-- Induction on documents, with the hypothesis for every element and every member. -/
theorem induct {P : Doc N → Prop} (null : P .null) (bool : ∀ b, P (.bool b))
    (num : ∀ n, P (.num n)) (str : ∀ s, P (.str s)) (arr : ∀ xs, (∀ x ∈ xs, P x) → P (.arr xs))
    (obj : ∀ ms, (∀ m ∈ ms, P m.2) → P (.obj ms)) : ∀ d, P d
  | .null => null
  | .bool b => bool b
  | .num n => num n
  | .str s => str s
  | .arr xs => arr xs (inductElems null bool num str arr obj xs)
  | .obj ms => obj ms (inductMembers null bool num str arr obj ms)

theorem inductElems {P : Doc N → Prop} (null : P .null) (bool : ∀ b, P (.bool b))
    (num : ∀ n, P (.num n)) (str : ∀ s, P (.str s)) (arr : ∀ xs, (∀ x ∈ xs, P x) → P (.arr xs))
    (obj : ∀ ms, (∀ m ∈ ms, P m.2) → P (.obj ms)) : ∀ xs : List (Doc N), ∀ x ∈ xs, P x
  | [] => List.forall_mem_nil _
  | x :: xs => List.forall_mem_cons.2
      ⟨induct null bool num str arr obj x, inductElems null bool num str arr obj xs⟩

theorem inductMembers {P : Doc N → Prop} (null : P .null) (bool : ∀ b, P (.bool b))
    (num : ∀ n, P (.num n)) (str : ∀ s, P (.str s)) (arr : ∀ xs, (∀ x ∈ xs, P x) → P (.arr xs))
    (obj : ∀ ms, (∀ m ∈ ms, P m.2) → P (.obj ms)) :
    ∀ ms : List (String × Doc N), ∀ m ∈ ms, P m.2
  | [] => List.forall_mem_nil _
  | (_, v) :: ms => List.forall_mem_cons.2
      ⟨induct null bool num str arr obj v, inductMembers null bool num str arr obj ms⟩

end

/-! ## Numbers and keys -/

mutual

/-- The document with every number replaced. -/
def mapNum (f : N → M) : Doc N → Doc M
  | .null => .null
  | .bool b => .bool b
  | .num n => .num (f n)
  | .str s => .str s
  | .arr xs => .arr (mapElems f xs)
  | .obj ms => .obj (mapMembers f ms)

def mapElems (f : N → M) : List (Doc N) → List (Doc M)
  | [] => []
  | x :: xs => mapNum f x :: mapElems f xs

def mapMembers (f : N → M) : List (String × Doc N) → List (String × Doc M)
  | [] => []
  | (k, v) :: ms => (k, mapNum f v) :: mapMembers f ms

end

mutual

/-- All numbers of the document. -/
def numbers : Doc N → List N
  | .num n => [n]
  | .arr xs => numbersElems xs
  | .obj ms => numbersMembers ms
  | _ => []

def numbersElems : List (Doc N) → List N
  | [] => []
  | x :: xs => numbers x ++ numbersElems xs

def numbersMembers : List (String × Doc N) → List N
  | [] => []
  | (_, v) :: ms => numbers v ++ numbersMembers ms

end

mutual

/-- No object of the document repeats a key. -/
def UniqueKeys : Doc N → Prop
  | .arr xs => UniqueElems xs
  | .obj ms => (ms.map Prod.fst).Nodup ∧ UniqueMembers ms
  | _ => True

def UniqueElems : List (Doc N) → Prop
  | [] => True
  | x :: xs => UniqueKeys x ∧ UniqueElems xs

def UniqueMembers : List (String × Doc N) → Prop
  | [] => True
  | (_, v) :: ms => UniqueKeys v ∧ UniqueMembers ms

end

section Lists

variable (f : N → M)

theorem mapElems_eq (xs : List (Doc N)) : mapElems f xs = xs.map (mapNum f) := by
  induction xs with
  | nil =>
      rfl
  | cons x xs ih =>
      rw [mapElems, ih, List.map_cons]

theorem mapMembers_eq (ms : List (String × Doc N)) :
    mapMembers f ms = ms.map fun m => (m.1, mapNum f m.2) := by
  induction ms with
  | nil =>
      rfl
  | cons m ms ih =>
      rw [mapMembers, ih, List.map_cons]

@[simp] theorem mapNum_arr (xs : List (Doc N)) : mapNum f (.arr xs) = .arr (xs.map (mapNum f)) := by
  rw [mapNum, mapElems_eq]

@[simp] theorem mapNum_obj (ms : List (String × Doc N)) :
    mapNum f (.obj ms) = .obj (ms.map fun m => (m.1, mapNum f m.2)) := by
  rw [mapNum, mapMembers_eq]

theorem mem_numbers_arr {xs : List (Doc N)} {n : N} :
    n ∈ numbers (.arr xs) ↔ ∃ x ∈ xs, n ∈ numbers x := by
  rw [numbers]
  induction xs with
  | nil =>
      simp [numbersElems]
  | cons x xs ih =>
      simp [numbersElems, ih]

theorem mem_numbers_obj {ms : List (String × Doc N)} {n : N} :
    n ∈ numbers (.obj ms) ↔ ∃ m ∈ ms, n ∈ numbers m.2 := by
  rw [numbers]
  induction ms with
  | nil =>
      simp [numbersMembers]
  | cons m ms ih =>
      rw [numbersMembers, List.mem_append, ih]
      simp

@[simp] theorem uniqueKeys_num (n : N) : UniqueKeys (.num n) := trivial

@[simp] theorem uniqueKeys_str (s : String) : UniqueKeys (.str s : Doc N) := trivial

@[simp] theorem uniqueKeys_arr {xs : List (Doc N)} :
    UniqueKeys (.arr xs) ↔ ∀ x ∈ xs, UniqueKeys x := by
  rw [UniqueKeys]
  induction xs with
  | nil =>
      simp [UniqueElems]
  | cons x xs ih =>
      simp [UniqueElems, ih]

@[simp] theorem uniqueKeys_obj {ms : List (String × Doc N)} :
    UniqueKeys (.obj ms) ↔ (ms.map Prod.fst).Nodup ∧ ∀ m ∈ ms, UniqueKeys m.2 := by
  rw [UniqueKeys]
  have hall : UniqueMembers ms ↔ ∀ m ∈ ms, UniqueKeys m.2 := by
    induction ms with
    | nil =>
        simp [UniqueMembers]
    | cons m ms ih =>
        rw [UniqueMembers, ih]
        simp
  rw [hall]

theorem mem_numbers_mapNum {d : Doc N} {m : M} :
    m ∈ numbers (mapNum f d) ↔ ∃ n ∈ numbers d, f n = m := by
  induction d using induct with
  | null | bool | num | str =>
      simp [mapNum, numbers, eq_comm]
  | arr xs ih =>
      rw [mapNum_arr, mem_numbers_arr]
      constructor
      · rintro ⟨y, hy, hm⟩
        rcases List.mem_map.1 hy with ⟨x, hx, rfl⟩
        rcases (ih x hx).1 hm with ⟨n, hn, hfn⟩
        exact ⟨n, mem_numbers_arr.2 ⟨x, hx, hn⟩, hfn⟩
      · rintro ⟨n, hn, hfn⟩
        rcases mem_numbers_arr.1 hn with ⟨x, hx, hn⟩
        exact ⟨mapNum f x, List.mem_map_of_mem hx, (ih x hx).2 ⟨n, hn, hfn⟩⟩
  | obj ms ih =>
      rw [mapNum_obj, mem_numbers_obj]
      constructor
      · rintro ⟨y, hy, hm⟩
        rcases List.mem_map.1 hy with ⟨x, hx, rfl⟩
        rcases (ih x hx).1 hm with ⟨n, hn, hfn⟩
        exact ⟨n, mem_numbers_obj.2 ⟨x, hx, hn⟩, hfn⟩
      · rintro ⟨n, hn, hfn⟩
        rcases mem_numbers_obj.1 hn with ⟨x, hx, hn⟩
        exact ⟨(x.1, mapNum f x.2), List.mem_map.2 ⟨x, hx, rfl⟩, (ih x hx).2 ⟨n, hn, hfn⟩⟩

theorem uniqueKeys_mapNum {d : Doc N} (h : UniqueKeys d) : UniqueKeys (mapNum f d) := by
  induction d using induct with
  | null | bool | num | str =>
      trivial
  | arr xs ih =>
      rw [mapNum_arr, uniqueKeys_arr]
      intro y hy
      rcases List.mem_map.1 hy with ⟨x, hx, rfl⟩
      exact ih x hx (uniqueKeys_arr.1 h x hx)
  | obj ms ih =>
      rcases uniqueKeys_obj.1 h with ⟨hkeys, hvalues⟩
      rw [mapNum_obj, uniqueKeys_obj, List.map_map]
      refine ⟨hkeys, ?_⟩
      intro y hy
      rcases List.mem_map.1 hy with ⟨m, hm, rfl⟩
      exact ih m hm (hvalues m hm)

end Lists

/-! ## Documents that are the same -/

mutual

/-- The same document: objects with the same keys and the same values under them, in any order, and
numbers related by `R`. -/
def Same (R : N → M → Prop) : Doc N → Doc M → Prop
  | .null, .null => True
  | .bool b, .bool b' => b = b'
  | .num n, .num n' => R n n'
  | .str s, .str s' => s = s'
  | .arr xs, .arr ys => SameElems R xs ys
  | .obj ms, .obj ms' => SameMembers R ms ms' ∧ ∀ k ∈ ms'.map Prod.fst, k ∈ ms.map Prod.fst
  | _, _ => False

def SameElems (R : N → M → Prop) : List (Doc N) → List (Doc M) → Prop
  | [], [] => True
  | x :: xs, y :: ys => Same R x y ∧ SameElems R xs ys
  | _, _ => False

/-- Every member of the first list has a partner of the same key in the second. -/
def SameMembers (R : N → M → Prop) : List (String × Doc N) → List (String × Doc M) → Prop
  | [], _ => True
  | (k, v) :: ms, ms' => (∃ v', (k, v') ∈ ms' ∧ Same R v v') ∧ SameMembers R ms ms'

end

/-- Two relations that agree on the members of a list relate it to the same lists. -/
theorem forall₂_congr_mem {α β : Type} {R R' : α → β → Prop} {xs : List α} {ys : List β}
    (h : ∀ x ∈ xs, ∀ y, R x y ↔ R' x y) : List.Forall₂ R xs ys ↔ List.Forall₂ R' xs ys := by
  rw [List.forall₂_iff_zip, List.forall₂_iff_zip]
  refine and_congr_right fun _ => forall₂_congr fun x y => ?_
  exact imp_congr_right fun hxy => h x (List.of_mem_zip hxy).1 y

section Same

variable {R : N → M → Prop}

@[simp] theorem same_arr {xs : List (Doc N)} {ys : List (Doc M)} :
    Same R (.arr xs) (.arr ys) ↔ List.Forall₂ (Same R) xs ys := by
  rw [Same]
  induction xs generalizing ys with
  | nil =>
      cases ys with
      | nil =>
          simp [SameElems]
      | cons y ys =>
          simp [SameElems]
  | cons x xs ih =>
      cases ys with
      | nil =>
          simp [SameElems]
      | cons y ys =>
          simp [SameElems, ih]

@[simp] theorem same_obj {ms : List (String × Doc N)} {ms' : List (String × Doc M)} :
    Same R (.obj ms) (.obj ms') ↔
      (∀ m ∈ ms, ∃ v', (m.1, v') ∈ ms' ∧ Same R m.2 v') ∧
        ∀ k ∈ ms'.map Prod.fst, k ∈ ms.map Prod.fst := by
  have hall : ∀ l : List (String × Doc N),
      SameMembers R l ms' ↔ ∀ m ∈ l, ∃ v', (m.1, v') ∈ ms' ∧ Same R m.2 v' := by
    intro l
    induction l with
    | nil =>
        simp [SameMembers]
    | cons m l ih =>
        rw [SameMembers, ih]
        simp
  rw [Same, hall]

/-- Relations that agree on the numbers of the document compare it in the same way. -/
theorem same_congr {R' : N → M → Prop} (d : Doc N)
    (h : ∀ n ∈ numbers d, ∀ n', R n n' ↔ R' n n') (e : Doc M) : Same R d e ↔ Same R' d e := by
  induction d using induct generalizing e with
  | null | bool | str =>
      cases e <;> simp [Same]
  | num n =>
      cases e with
      | num n' =>
          rw [Same, Same]
          exact h n (by simp [numbers]) n'
      | null | bool | str | arr | obj =>
          simp [Same]
  | arr xs ih =>
      cases e with
      | arr ys =>
          rw [same_arr, same_arr]
          refine forall₂_congr_mem fun x hx y => ?_
          exact ih x hx (fun n hn => h n (mem_numbers_arr.2 ⟨x, hx, hn⟩)) y
      | null | bool | num | str | obj =>
          simp [Same]
  | obj ms ih =>
      cases e with
      | obj ms' =>
          rw [same_obj, same_obj]
          refine and_congr_left fun _ => forall₂_congr fun m hm => exists_congr fun v' => ?_
          exact and_congr_right fun _ =>
            ih m hm (fun n hn => h n (mem_numbers_obj.2 ⟨m, hm, hn⟩)) v'
      | null | bool | num | str | arr =>
          simp [Same]

/-- Replacing numbers first is comparing by what they are replaced with. -/
theorem same_mapNum {N' M' : Type} {R' : N' → M' → Prop} (f : N → N') (g : M → M') (d : Doc N)
    (e : Doc M) :
    Same R' (mapNum f d) (mapNum g e) ↔ Same (fun n n' => R' (f n) (g n')) d e := by
  induction d using induct generalizing e with
  | null | bool | num | str =>
      cases e <;> simp [mapNum, Same]
  | arr xs ih =>
      cases e with
      | arr ys =>
          rw [mapNum_arr, mapNum_arr, same_arr, same_arr, List.forall₂_map_left_iff,
            List.forall₂_map_right_iff]
          exact forall₂_congr_mem ih
      | null | bool | num | str | obj =>
          simp [mapNum, Same]
  | obj ms ih =>
      cases e with
      | obj ms' =>
          rw [mapNum_obj, mapNum_obj, same_obj, same_obj]
          simp only [List.map_map, List.forall_mem_map]
          refine and_congr ?_ (by rfl)
          refine forall₂_congr fun m hm => ?_
          constructor
          · rintro ⟨v', hv', hsame⟩
            rcases List.mem_map.1 hv' with ⟨m', hm', heq⟩
            rcases Prod.mk.inj heq with ⟨hkey, rfl⟩
            exact ⟨m'.2, hkey ▸ hm', (ih m hm m'.2).1 hsame⟩
          · rintro ⟨v', hv', hsame⟩
            exact ⟨mapNum g v', List.mem_map.2 ⟨(m.1, v'), hv', rfl⟩, (ih m hm v').2 hsame⟩
      | null | bool | num | str | arr =>
          simp [mapNum, Same]

/-- A member of a list without repeated keys is determined by its key. -/
theorem eq_of_key {ms : List (String × Doc N)} (h : (ms.map Prod.fst).Nodup)
    {m m' : String × Doc N} (hm : m ∈ ms) (hm' : m' ∈ ms) (hkey : m.1 = m'.1) : m = m' :=
  List.inj_on_of_nodup_map h hm hm' hkey

/-- A document is the same as the one with its numbers replaced exactly when each is related to its
replacement. -/
theorem same_mapNum_self {f : N → M} {d : Doc N} (hd : UniqueKeys d) :
    Same R d (mapNum f d) ↔ ∀ n ∈ numbers d, R n (f n) := by
  induction d using induct with
  | null | bool | num | str =>
      simp [mapNum, Same, numbers]
  | arr xs ih =>
      rw [mapNum_arr, same_arr, List.forall₂_map_right_iff, List.forall₂_same]
      constructor
      · intro hall n hn
        rcases mem_numbers_arr.1 hn with ⟨x, hx, hn⟩
        exact (ih x hx (uniqueKeys_arr.1 hd x hx)).1 (hall x hx) n hn
      · intro hall x hx
        exact (ih x hx (uniqueKeys_arr.1 hd x hx)).2 fun n hn =>
          hall n (mem_numbers_arr.2 ⟨x, hx, hn⟩)
  | obj ms ih =>
      rcases uniqueKeys_obj.1 hd with ⟨hkeys, hvalues⟩
      rw [mapNum_obj, same_obj, List.map_map]
      constructor
      · rintro ⟨hall, _⟩ n hn
        rcases mem_numbers_obj.1 hn with ⟨m, hm, hn⟩
        rcases hall m hm with ⟨v', hv', hsame⟩
        rcases List.mem_map.1 hv' with ⟨m', hm', heq⟩
        rcases Prod.mk.inj heq with ⟨hkey, rfl⟩
        obtain rfl : m' = m := eq_of_key hkeys hm' hm hkey
        exact (ih m' hm (hvalues m' hm)).1 hsame n hn
      · intro hall
        refine ⟨?_, fun k hk => by simpa using hk⟩
        intro m hm
        refine ⟨mapNum f m.2, List.mem_map.2 ⟨m, hm, rfl⟩, (ih m hm (hvalues m hm)).2 ?_⟩
        exact fun n hn => hall n (mem_numbers_obj.2 ⟨m, hm, hn⟩)

end Same

/-! ## Members in order -/

section Sorted

variable {κ : Type} [LinearOrder κ] (key : String → κ)

mutual

/-- The document with the members of every object in the order of `key`. -/
def sortKeys : Doc N → Doc N
  | .arr xs => .arr (sortElems xs)
  | .obj ms => .obj ((sortMembers ms).insertionSort fun m m' => key m.1 ≤ key m'.1)
  | .null => .null
  | .bool b => .bool b
  | .num n => .num n
  | .str s => .str s

def sortElems : List (Doc N) → List (Doc N)
  | [] => []
  | x :: xs => sortKeys x :: sortElems xs

def sortMembers : List (String × Doc N) → List (String × Doc N)
  | [] => []
  | (k, v) :: ms => (k, sortKeys v) :: sortMembers ms

end

theorem sortElems_eq (xs : List (Doc N)) : sortElems key xs = xs.map (sortKeys key) := by
  induction xs with
  | nil =>
      rfl
  | cons x xs ih =>
      rw [sortElems, ih, List.map_cons]

theorem sortMembers_eq (ms : List (String × Doc N)) :
    sortMembers key ms = ms.map fun m => (m.1, sortKeys key m.2) := by
  induction ms with
  | nil =>
      rfl
  | cons m ms ih =>
      rw [sortMembers, ih, List.map_cons]

variable {key}

/-- Sorting by a key that tells the members apart forgets their order and nothing else. -/
theorem insertionSort_eq_iff_perm (hkey : Function.Injective key)
    {l l' : List (String × Doc N)} (hl : (l.map Prod.fst).Nodup) :
    (l.insertionSort fun m m' => key m.1 ≤ key m'.1) =
        (l'.insertionSort fun m m' => key m.1 ≤ key m'.1) ↔ l.Perm l' := by
  have hperm := fun l : List (String × Doc N) =>
    List.perm_insertionSort (fun m m' : String × Doc N => key m.1 ≤ key m'.1) l
  constructor
  · intro h
    exact (hperm l).symm.trans (h ▸ hperm l')
  · intro h
    have htotal : Std.Total fun m m' : String × Doc N => key m.1 ≤ key m'.1 :=
      ⟨fun m m' => le_total (key m.1) (key m'.1)⟩
    have htrans : IsTrans (String × Doc N) fun m m' => key m.1 ≤ key m'.1 :=
      ⟨fun _ _ _ => le_trans⟩
    refine ((hperm l).trans (h.trans (hperm l').symm)).eq_of_pairwise ?_
      (List.pairwise_insertionSort _ l) (List.pairwise_insertionSort _ l')
    intro m m' hm hm' hle hle'
    have hmem : m ∈ l := (hperm l).mem_iff.1 hm
    have hmem' : m' ∈ l := h.mem_iff.2 ((hperm l').mem_iff.1 hm')
    exact eq_of_key hl hmem hmem' (hkey (le_antisymm hle hle'))

variable (key) in
theorem map_fst_sorted (l : List (String × Doc N)) :
    (l.map fun m => (m.1, sortKeys key m.2)).map Prod.fst = l.map Prod.fst := by
  rw [List.map_map]
  rfl

/-- Objects whose values are compared by sorting: they are the same exactly when the members with sorted
values are, up to their order. -/
theorem perm_sorted_iff {ms ms' : List (String × Doc N)} (hkeys : (ms.map Prod.fst).Nodup)
    (hkeys' : (ms'.map Prod.fst).Nodup)
    (hvalues : ∀ m ∈ ms, ∀ m' ∈ ms', sortKeys key m.2 = sortKeys key m'.2 ↔ Same Eq m.2 m'.2) :
    (ms.map fun m => (m.1, sortKeys key m.2)).Perm (ms'.map fun m => (m.1, sortKeys key m.2)) ↔
      Same Eq (.obj ms) (.obj ms') := by
  rw [same_obj]
  constructor
  · intro hperm
    refine ⟨?_, ?_⟩
    · intro m hm
      rcases List.mem_map.1 (hperm.mem_iff.1 (List.mem_map.2 ⟨m, hm, rfl⟩)) with ⟨m', hm', heq⟩
      rcases Prod.mk.inj heq with ⟨hkey', hsort⟩
      exact ⟨m'.2, hkey' ▸ hm', (hvalues m hm m' hm').1 hsort.symm⟩
    · intro k hk
      rw [← map_fst_sorted key] at hk ⊢
      exact (hperm.map Prod.fst).mem_iff.2 hk
  · rintro ⟨hall, hback⟩
    have hnodup := List.Nodup.of_map Prod.fst ((map_fst_sorted key ms).symm ▸ hkeys)
    have hnodup' := List.Nodup.of_map Prod.fst ((map_fst_sorted key ms').symm ▸ hkeys')
    -- A member of the first list, sorted, is one of the second.
    have hpartner : ∀ m ∈ ms, (m.1, sortKeys key m.2) ∈
        ms'.map fun m => (m.1, sortKeys key m.2) := by
      intro m hm
      rcases hall m hm with ⟨v', hv', hsame⟩
      refine List.mem_map.2 ⟨(m.1, v'), hv', ?_⟩
      rw [(hvalues m hm (m.1, v') hv').2 hsame]
    rw [List.perm_ext_iff_of_nodup hnodup hnodup']
    intro a
    constructor
    · intro ha
      rcases List.mem_map.1 ha with ⟨m, hm, rfl⟩
      exact hpartner m hm
    · intro ha
      rcases List.mem_map.1 ha with ⟨m', hm', rfl⟩
      -- Its key is in the first list, and the partner found there can only be this member.
      rcases List.mem_map.1 (hback m'.1 (List.mem_map_of_mem hm')) with ⟨m, hm, hkey'⟩
      rcases List.mem_map.1 (hpartner m hm) with ⟨m'', hm'', heq⟩
      obtain rfl : m'' = m' := eq_of_key hkeys' hm'' hm' ((Prod.mk.inj heq).1.trans hkey')
      exact List.mem_map.2 ⟨m, hm, heq.symm⟩

/-- Sorted documents are equal exactly when the documents are the same. -/
theorem sortKeys_eq_iff (hkey : Function.Injective key) {d e : Doc N} (hd : UniqueKeys d)
    (he : UniqueKeys e) : sortKeys key d = sortKeys key e ↔ Same Eq d e := by
  induction d using induct generalizing e with
  | null | bool | num | str =>
      cases e <;> simp [sortKeys, Same]
  | arr xs ih =>
      cases e with
      | arr ys =>
          have hx := uniqueKeys_arr.1 hd
          have hy := uniqueKeys_arr.1 he
          rw [same_arr, sortKeys, sortKeys, arr.injEq, sortElems_eq, sortElems_eq,
            ← List.forall₂_eq_eq_eq, List.forall₂_map_left_iff, List.forall₂_map_right_iff,
            List.forall₂_iff_zip, List.forall₂_iff_zip]
          refine and_congr_right fun _ => forall₂_congr fun x y => imp_congr_right fun hxy => ?_
          have hmem := List.of_mem_zip hxy
          exact ih x hmem.1 (hx x hmem.1) (hy y hmem.2)
      | null | bool | num | str | obj =>
          simp [sortKeys, Same]
  | obj ms ih =>
      cases e with
      | obj ms' =>
          rcases uniqueKeys_obj.1 hd with ⟨hkeys, hvalues⟩
          rcases uniqueKeys_obj.1 he with ⟨hkeys', hvalues'⟩
          rw [sortKeys, sortKeys, obj.injEq, sortMembers_eq, sortMembers_eq,
            insertionSort_eq_iff_perm hkey (by rwa [map_fst_sorted])]
          exact perm_sorted_iff hkeys hkeys' fun m hm m' hm' =>
            ih m hm (hvalues m hm) (hvalues' m' hm')
      | null | bool | num | str | arr =>
          simp [sortKeys, Same]

end Sorted

/-! ## Members by key -/

section Members

/-- The member of an object with the key. -/
def get? (k : String) : Doc N → Option (Doc N)
  | .obj ms => ms.lookup k
  | _ => none

def isObject : Doc N → Bool
  | .obj _ => true
  | _ => false

/-- The text that the document is. -/
def asStr? : Doc N → Option String
  | .str s => some s
  | _ => none

/-- Insert a member: in the place of the one with its key, at the end if there is none. -/
def setMember (k : String) (v : Doc N) : List (String × Doc N) → List (String × Doc N)
  | [] => [(k, v)]
  | m :: ms => if m.1 = k then (k, v) :: ms else m :: setMember k v ms

def setMembers (fields ms : List (String × Doc N)) : List (String × Doc N) :=
  fields.foldl (fun ms m => setMember m.1 m.2 ms) ms

theorem lookup_cons (k : String) (m : String × Doc N) (ms : List (String × Doc N)) :
    (m :: ms).lookup k = if k = m.1 then some m.2 else ms.lookup k := by
  by_cases h : k = m.1
  · rw [if_pos h, List.lookup_cons, beq_iff_eq.2 h]
  · rw [if_neg h, List.lookup_cons, beq_eq_false_iff_ne.2 h]

theorem lookup_setMember (k k' : String) (v : Doc N) (ms : List (String × Doc N)) :
    (setMember k v ms).lookup k' = if k' = k then some v else ms.lookup k' := by
  induction ms with
  | nil =>
      exact lookup_cons k' (k, v) []
  | cons m ms ih =>
      by_cases hm : m.1 = k
      · rw [setMember, if_pos hm, lookup_cons, lookup_cons, hm]
        by_cases h : k' = k <;> simp [h]
      · rw [setMember, if_neg hm, lookup_cons, lookup_cons, ih]
        by_cases hk : k' = m.1
        · have hne : k' ≠ k := fun h => hm (hk.symm.trans h)
          rw [if_pos hk, if_neg hne, if_pos hk]
        · rw [if_neg hk, if_neg hk]

theorem map_fst_setMember (k : String) (v : Doc N) (ms : List (String × Doc N)) :
    (setMember k v ms).map Prod.fst =
      if k ∈ ms.map Prod.fst then ms.map Prod.fst else ms.map Prod.fst ++ [k] := by
  induction ms with
  | nil =>
      rfl
  | cons m ms ih =>
      by_cases hm : m.1 = k
      · simp [setMember, hm]
      · rw [setMember, if_neg hm, List.map_cons, ih]
        by_cases hk : k ∈ ms.map Prod.fst
        · simp [hk]
        · simp [hk, Ne.symm hm]

theorem mem_setMember {k : String} {v : Doc N} {ms : List (String × Doc N)} {m : String × Doc N}
    (h : m ∈ setMember k v ms) : m = (k, v) ∨ m ∈ ms := by
  induction ms with
  | nil =>
      exact .inl (List.mem_singleton.1 h)
  | cons m' ms ih =>
      by_cases hm : m'.1 = k
      · rw [setMember, if_pos hm] at h
        exact (List.mem_cons.1 h).imp_right (List.mem_cons_of_mem m')
      · rw [setMember, if_neg hm] at h
        rcases List.mem_cons.1 h with rfl | h
        · exact .inr List.mem_cons_self
        · exact (ih h).imp_right (List.mem_cons_of_mem m')

theorem uniqueKeys_setMember {k : String} {v : Doc N} {ms : List (String × Doc N)}
    (hv : UniqueKeys v) (h : UniqueKeys (.obj ms)) : UniqueKeys (.obj (setMember k v ms)) := by
  rcases uniqueKeys_obj.1 h with ⟨hkeys, hvalues⟩
  refine uniqueKeys_obj.2 ⟨?_, ?_⟩
  · rw [map_fst_setMember]
    split
    · exact hkeys
    · next hnew =>
      exact List.nodup_append.2 ⟨hkeys, List.nodup_singleton k, fun a ha b hb hab =>
        hnew (List.mem_singleton.1 hb ▸ hab ▸ ha)⟩
  · intro m hm
    rcases mem_setMember hm with rfl | hm
    · exact hv
    · exact hvalues m hm

theorem uniqueKeys_setMembers {fields ms : List (String × Doc N)}
    (hf : ∀ m ∈ fields, UniqueKeys m.2) (h : UniqueKeys (.obj ms)) :
    UniqueKeys (.obj (setMembers fields ms)) := by
  induction fields generalizing ms with
  | nil =>
      exact h
  | cons m fields ih =>
      exact ih (fun m' hm' => hf m' (List.mem_cons_of_mem m hm'))
        (uniqueKeys_setMember (hf m List.mem_cons_self) h)

/-- A member that is inserted is found; the others are as before. -/
theorem lookup_setMembers {fields : List (String × Doc N)} (hkeys : (fields.map Prod.fst).Nodup)
    (k : String) (ms : List (String × Doc N)) :
    (setMembers fields ms).lookup k = (fields.lookup k).or (ms.lookup k) := by
  induction fields generalizing ms with
  | nil =>
      rfl
  | cons m fields ih =>
      rcases List.nodup_cons.1 hkeys with ⟨hnew, hkeys⟩
      have hrest : (setMembers (m :: fields) ms).lookup k =
          (fields.lookup k).or (if k = m.1 then some m.2 else ms.lookup k) := by
        rw [← lookup_setMember]
        exact ih hkeys (setMember m.1 m.2 ms)
      rw [hrest, lookup_cons]
      by_cases hk : k = m.1
      · have hnone : fields.lookup k = none := by
          rw [List.lookup_eq_none_iff]
          rintro ⟨k', v'⟩ hm'
          simpa [hk] using fun h : m.1 = k' => hnew (h ▸ List.mem_map_of_mem hm')
        rw [if_pos hk, if_pos hk, hnone]
        rfl
      · rw [if_neg hk, if_neg hk]

end Members

end Doc

end Lib
end Aivcs
