import Mathlib.Data.Option.Basic
import Aivcs.Lib.JsonDoc

/-!
# JsonNulls — documents in which a missing member counts as null

A program that reads `null` where a document has nothing cannot tell a missing member from one that is
`null`, nor the end of an array from nulls.

* `memberAt`, `elemAt`, `index` read a member or an element, `null` where there is none;
* `dropNulls` is the document without the nulls that cannot be told from nothing;
* `same_dropNulls_obj`, `same_dropNulls_arr` — containers are the same without these nulls exactly when
  everything read from them is.
-/

namespace Aivcs
namespace Lib
namespace Doc

variable {N M : Type}

/-! ## Deciding whether documents are the same -/

mutual

def sameB (r : N → M → Bool) : Doc N → Doc M → Bool
  | .null, .null => true
  | .bool b, .bool b' => b = b'
  | .num n, .num n' => r n n'
  | .str s, .str s' => s = s'
  | .arr xs, .arr ys => sameElemsB r xs ys
  | .obj ms, .obj ms' => sameMembersB r ms ms' && ms'.all fun m => m.1 ∈ ms.map Prod.fst
  | _, _ => false

def sameElemsB (r : N → M → Bool) : List (Doc N) → List (Doc M) → Bool
  | [], [] => true
  | x :: xs, y :: ys => sameB r x y && sameElemsB r xs ys
  | _, _ => false

def sameMembersB (r : N → M → Bool) : List (String × Doc N) → List (String × Doc M) → Bool
  | [], _ => true
  | (k, v) :: ms, ms' => (ms'.any fun m => m.1 = k && sameB r v m.2) && sameMembersB r ms ms'

end

section Decidable

variable {R : N → M → Prop} [∀ n m, Decidable (R n m)]

theorem sameB_iff (d : Doc N) (e : Doc M) : sameB (fun n m => decide (R n m)) d e = true ↔ Same R d e := by
  induction d using induct generalizing e with
  | null | bool | num | str =>
      cases e <;> simp [sameB, Same]
  | arr xs ih =>
      cases e with
      | arr ys =>
          rw [sameB, same_arr]
          induction xs generalizing ys with
          | nil =>
              cases ys <;> simp [sameElemsB]
          | cons x xs ihxs =>
              cases ys with
              | nil =>
                  simp [sameElemsB]
              | cons y ys =>
                  rw [sameElemsB, Bool.and_eq_true, ih x List.mem_cons_self, List.forall₂_cons,
                    ihxs (fun z hz => ih z (List.mem_cons_of_mem _ hz))]
      | null | bool | num | str | obj =>
          simp [sameB, Same]
  | obj ms ih =>
      cases e with
      | obj ms' =>
          have hall : sameMembersB (fun n m => decide (R n m)) ms ms' = true ↔
              ∀ m ∈ ms, ∃ v', (m.1, v') ∈ ms' ∧ Same R m.2 v' := by
            induction ms with
            | nil =>
                simp [sameMembersB]
            | cons m ms ihms =>
                rw [sameMembersB, Bool.and_eq_true, List.forall_mem_cons,
                  ihms (fun z hz => ih z (List.mem_cons_of_mem _ hz))]
                simp [ih m List.mem_cons_self]
          rw [sameB, same_obj, Bool.and_eq_true, hall]
          simp
      | null | bool | num | str | arr =>
          simp [sameB, Same]

instance (d : Doc N) (e : Doc M) : Decidable (Same R d e) :=
  decidable_of_iff _ (sameB_iff d e)

end Decidable

/-! ## Reading with null for nothing -/

def isNull : Doc N → Bool
  | .null => true
  | _ => false

/-- `get(key).unwrap_or(&Value::Null)` -/
def memberAt (ms : List (String × Doc N)) (k : String) : Doc N :=
  (ms.lookup k).getD .null

def elemAt (xs : List (Doc N)) (i : Nat) : Doc N :=
  xs[i]?.getD .null

/-- `value[key]` -/
def index (d : Doc N) (k : String) : Doc N :=
  (d.get? k).getD .null

/-- The elements, if the document is an array. -/
def elems : Doc N → List (Doc N)
  | .arr xs => xs
  | _ => []

mutual

/-- The document without the members that are null and, if `arrays` is set, without the nulls at the end of
its arrays.  Otherwise arrays are left as they are. -/
def dropNulls (arrays : Bool) : Doc N → Doc N
  | .arr xs => if arrays then .arr (dropElems arrays xs) else .arr xs
  | .obj ms => .obj (dropMembers arrays ms)
  | .null => .null
  | .bool b => .bool b
  | .num n => .num n
  | .str s => .str s

def dropElems (arrays : Bool) : List (Doc N) → List (Doc N)
  | [] => []
  | x :: xs =>
      let rest := dropElems arrays xs
      if x.isNull && rest.isEmpty then [] else dropNulls arrays x :: rest

def dropMembers (arrays : Bool) : List (String × Doc N) → List (String × Doc N)
  | [] => []
  | (k, v) :: ms =>
      if v.isNull then dropMembers arrays ms else (k, dropNulls arrays v) :: dropMembers arrays ms

end

section Nulls

variable {R : N → M → Prop} {arrays : Bool}

theorem isNull_iff {d : Doc N} : d.isNull = true ↔ d = .null := by
  cases d <;> simp [isNull]

@[simp] theorem isNull_dropNulls (d : Doc N) : (dropNulls arrays d).isNull = d.isNull := by
  cases d with
  | arr xs =>
      rw [dropNulls]
      split <;> rfl
  | obj ms =>
      rw [dropNulls]
      rfl
  | _ =>
      rw [dropNulls]

@[simp] theorem dropNulls_null : dropNulls arrays (.null : Doc N) = .null := by
  rw [dropNulls]

@[simp] theorem same_null_left {e : Doc M} : Same R .null e ↔ e = .null := by
  cases e <;> simp [Same]

@[simp] theorem same_null_right {d : Doc N} : Same R d .null ↔ d = .null := by
  cases d <;> simp [Same]

theorem mem_of_lookup {ms : List (String × Doc N)} {k : String} {v : Doc N} (h : ms.lookup k = some v) :
    (k, v) ∈ ms := by
  obtain ⟨pre, post, rfl, -⟩ := List.lookup_eq_some_iff.1 h
  simp

theorem lookup_of_mem {ms : List (String × Doc N)} (hkeys : (ms.map Prod.fst).Nodup) {k : String}
    {v : Doc N} (h : (k, v) ∈ ms) : ms.lookup k = some v := by
  cases hlook : ms.lookup k with
  | none =>
      have hne := List.lookup_eq_none_iff.1 hlook _ h
      simp at hne
  | some v' =>
      have heq := eq_of_key hkeys (mem_of_lookup hlook) h rfl
      rw [(Prod.mk.inj heq).2]

theorem memberAt_of_mem {ms : List (String × Doc N)} (hkeys : (ms.map Prod.fst).Nodup) {k : String}
    {v : Doc N} (h : (k, v) ∈ ms) : memberAt ms k = v := by
  rw [memberAt, lookup_of_mem hkeys h, Option.getD_some]

/-- What is read from an object is a member or null. -/
theorem memberAt_cases (ms : List (String × Doc N)) (k : String) :
    (k, memberAt ms k) ∈ ms ∨ k ∉ ms.map Prod.fst ∧ memberAt ms k = .null := by
  cases hlook : ms.lookup k with
  | none =>
      refine .inr ⟨?_, by rw [memberAt, hlook, Option.getD_none]⟩
      intro hk
      obtain ⟨m, hm, rfl⟩ := List.mem_map.1 hk
      have hne := List.lookup_eq_none_iff.1 hlook m hm
      simp at hne
  | some v =>
      rw [memberAt, hlook, Option.getD_some]
      exact .inl (mem_of_lookup hlook)

theorem elemAt_cases (xs : List (Doc N)) (i : Nat) : elemAt xs i ∈ xs ∨ elemAt xs i = .null := by
  cases hx : xs[i]? with
  | none =>
      exact .inr (by rw [elemAt, hx, Option.getD_none])
  | some x =>
      rw [elemAt, hx, Option.getD_some]
      exact .inl (List.mem_of_getElem? hx)

/-- What holds of two nulls holds of all that is read from two objects, if it does under their keys. -/
theorem forall_memberAt (P : Doc N → Doc M → Prop) (hnull : P .null .null) (ms : List (String × Doc N))
    (ms' : List (String × Doc M)) :
    (∀ k ∈ ms.map Prod.fst ++ ms'.map Prod.fst, P (memberAt ms k) (memberAt ms' k)) ↔
      ∀ k, P (memberAt ms k) (memberAt ms' k) := by
  refine ⟨fun h k => ?_, fun h k _ => h k⟩
  rcases memberAt_cases ms k with hk | ⟨-, hnone⟩
  · exact h k (List.mem_append_left _ (List.mem_map_of_mem hk))
  · rcases memberAt_cases ms' k with hk' | ⟨-, hnone'⟩
    · exact h k (List.mem_append_right _ (List.mem_map_of_mem hk'))
    · rw [hnone, hnone']
      exact hnull

theorem forall_elemAt (P : Doc N → Doc M → Prop) (hnull : P .null .null) (xs : List (Doc N))
    (ys : List (Doc M)) :
    (∀ i < max xs.length ys.length, P (elemAt xs i) (elemAt ys i)) ↔
      ∀ i, P (elemAt xs i) (elemAt ys i) := by
  refine ⟨fun h i => ?_, fun h i _ => h i⟩
  by_cases hi : i < max xs.length ys.length
  · exact h i hi
  · have hout := Nat.max_le.1 (Nat.not_lt.1 hi)
    rw [elemAt, elemAt, List.getElem?_eq_none hout.1, List.getElem?_eq_none hout.2]
    exact hnull

/-! What is read is smaller than what it is read from, so a program may go on with it. -/

theorem sizeOf_memberAt_lt [SizeOf N] (ms : List (String × Doc N)) (k : String) :
    sizeOf (memberAt ms k) < sizeOf (Doc.obj ms) := by
  rcases memberAt_cases ms k with hk | ⟨-, hnone⟩
  · have hlt := List.sizeOf_lt_of_mem hk
    simp only [Prod.mk.sizeOf_spec] at hlt
    simp only [obj.sizeOf_spec]
    omega
  · have hpos : 0 < sizeOf ms := by
      cases ms <;> simp +arith
    rw [hnone]
    simpa using hpos

theorem sizeOf_elemAt_lt [SizeOf N] (xs : List (Doc N)) (i : Nat) :
    sizeOf (elemAt xs i) < sizeOf (Doc.arr xs) := by
  rcases elemAt_cases xs i with hx | hnone
  · have hlt := List.sizeOf_lt_of_mem hx
    simp only [arr.sizeOf_spec]
    omega
  · have hpos : 0 < sizeOf xs := by
      cases xs <;> simp +arith
    rw [hnone]
    simpa using hpos

/-! ### Objects -/

section Objects

variable {ms : List (String × Doc N)} {ms' : List (String × Doc M)}

/-- Everything read from two objects that are the same is the same. -/
theorem Same.memberAt (hkeys' : (ms'.map Prod.fst).Nodup) (h : Same R (.obj ms) (.obj ms'))
    (k : String) : Same R (memberAt ms k) (memberAt ms' k) := by
  obtain ⟨hmembers, hback⟩ := same_obj.1 h
  rcases memberAt_cases ms k with hk | ⟨hk, hnone⟩
  · obtain ⟨v', hv', hsame⟩ := hmembers _ hk
    rwa [memberAt_of_mem hkeys' hv']
  · rcases memberAt_cases ms' k with hk' | ⟨-, hnone'⟩
    · exact absurd (hback k (List.mem_map_of_mem hk')) hk
    · rw [hnone, hnone', same_null_left]

/-- Objects without null members are the same if everything read from them is. -/
theorem same_obj_of_memberAt (hkeys : (ms.map Prod.fst).Nodup) (hkeys' : (ms'.map Prod.fst).Nodup)
    (hnull : ∀ m ∈ ms, m.2.isNull = false) (hnull' : ∀ m ∈ ms', m.2.isNull = false)
    (h : ∀ k, Same R (Doc.memberAt ms k) (Doc.memberAt ms' k)) : Same R (.obj ms) (.obj ms') := by
  refine same_obj.2 ⟨?_, ?_⟩
  · intro m hm
    have hsame := h m.1
    rw [memberAt_of_mem hkeys hm] at hsame
    rcases memberAt_cases ms' m.1 with hk' | ⟨-, hnone'⟩
    · exact ⟨_, hk', hsame⟩
    · rw [hnone', same_null_right, ← isNull_iff, hnull m hm] at hsame
      exact absurd hsame Bool.false_ne_true
  · intro k hk
    obtain ⟨m', hm', rfl⟩ := List.mem_map.1 hk
    have hsame := h m'.1
    rw [memberAt_of_mem hkeys' hm'] at hsame
    rcases memberAt_cases ms m'.1 with hm | ⟨-, hnone⟩
    · exact List.mem_map_of_mem hm
    · rw [hnone, same_null_left, ← isNull_iff, hnull' m' hm'] at hsame
      exact absurd hsame Bool.false_ne_true

theorem dropMembers_eq (arrays : Bool) (ms : List (String × Doc N)) :
    dropMembers arrays ms =
      (ms.filter fun m => !m.2.isNull).map fun m => (m.1, dropNulls arrays m.2) := by
  induction ms with
  | nil =>
      rw [dropMembers]
      rfl
  | cons m ms ih =>
      rw [dropMembers, ih, List.filter_cons]
      cases m.2.isNull <;> rfl

theorem nodup_dropMembers (hkeys : (ms.map Prod.fst).Nodup) :
    ((dropMembers arrays ms).map Prod.fst).Nodup := by
  rw [dropMembers_eq, List.map_map]
  exact hkeys.sublist (List.filter_sublist.map Prod.fst)

theorem mem_dropMembers {k : String} {v : Doc N} : (k, v) ∈ dropMembers arrays ms ↔
    ∃ v', (k, v') ∈ ms ∧ v'.isNull = false ∧ dropNulls arrays v' = v := by
  rw [dropMembers_eq, List.mem_map]
  constructor
  · rintro ⟨m, hm, heq⟩
    obtain ⟨rfl, rfl⟩ := Prod.mk.inj heq
    obtain ⟨hm, hnull⟩ := List.mem_filter.1 hm
    exact ⟨m.2, hm, by simpa using hnull, rfl⟩
  · rintro ⟨v', hv', hnull, rfl⟩
    exact ⟨(k, v'), List.mem_filter.2 ⟨hv', by simp [hnull]⟩, rfl⟩

theorem isNull_of_mem_dropMembers {m : String × Doc N} (hm : m ∈ dropMembers arrays ms) :
    m.2.isNull = false := by
  obtain ⟨v', -, hnull, heq⟩ := mem_dropMembers.1 hm
  rw [← heq, isNull_dropNulls, hnull]

theorem memberAt_dropMembers (hkeys : (ms.map Prod.fst).Nodup) (k : String) :
    memberAt (dropMembers arrays ms) k = dropNulls arrays (memberAt ms k) := by
  rcases memberAt_cases (dropMembers arrays ms) k with hk | ⟨hk, hnone⟩
  · -- a member that is left is the one that was there, without its own nulls
    obtain ⟨v', hv', -, heq⟩ := mem_dropMembers.1 hk
    rw [← heq, memberAt_of_mem hkeys hv']
  · -- no member is left under the key, so there was none or it was null
    rw [hnone]
    rcases memberAt_cases ms k with hv | ⟨-, hnone'⟩
    · cases hnull : (memberAt ms k).isNull with
      | true =>
          rw [isNull_iff.1 hnull, dropNulls_null]
      | false =>
          exact absurd (List.mem_map_of_mem (mem_dropMembers.2 ⟨_, hv, hnull, rfl⟩)) hk
    · rw [hnone', dropNulls_null]

/-- Objects are the same without their nulls exactly when everything read from them is. -/
theorem same_dropNulls_obj (hkeys : (ms.map Prod.fst).Nodup) (hkeys' : (ms'.map Prod.fst).Nodup) :
    Same R (dropNulls arrays (.obj ms)) (dropNulls arrays (.obj ms')) ↔
      ∀ k, Same R (dropNulls arrays (memberAt ms k)) (dropNulls arrays (memberAt ms' k)) := by
  rw [dropNulls, dropNulls]
  constructor
  · intro h k
    rw [← memberAt_dropMembers hkeys, ← memberAt_dropMembers hkeys']
    exact h.memberAt (nodup_dropMembers hkeys') k
  · intro h
    refine same_obj_of_memberAt (nodup_dropMembers hkeys) (nodup_dropMembers hkeys')
      (fun m hm => isNull_of_mem_dropMembers hm) (fun m hm => isNull_of_mem_dropMembers hm) ?_
    intro k
    rw [memberAt_dropMembers hkeys, memberAt_dropMembers hkeys']
    exact h k

end Objects

/-! ### Arrays -/

section Arrays

variable {xs : List (Doc N)} {ys : List (Doc M)}

/-- Put an element in front, unless it is a null with nothing behind it. -/
def consTrim (x : Doc N) (xs : List (Doc N)) : List (Doc N) :=
  if x.isNull && xs.isEmpty then [] else x :: xs

theorem dropElems_cons (x : Doc N) :
    dropElems arrays (x :: xs) = consTrim (dropNulls arrays x) (dropElems arrays xs) := by
  rw [dropElems, consTrim, isNull_dropNulls]

theorem consTrim_eq_nil_iff {x : Doc N} : consTrim x xs = [] ↔ x = .null ∧ xs = [] := by
  unfold consTrim
  cases xs with
  | nil =>
      cases x <;> simp [isNull]
  | cons y xs =>
      simp

theorem forall₂_consTrim {x : Doc N} {y : Doc M} :
    List.Forall₂ (Same R) (consTrim x xs) (consTrim y ys) ↔ Same R x y ∧ List.Forall₂ (Same R) xs ys := by
  by_cases hx : consTrim x xs = []
  · -- Nothing but nulls on the left: the same must be so on the right.
    obtain ⟨rfl, rfl⟩ := consTrim_eq_nil_iff.1 hx
    rw [hx, List.forall₂_nil_left_iff, consTrim_eq_nil_iff, same_null_left, List.forall₂_nil_left_iff]
  · by_cases hy : consTrim y ys = []
    · obtain ⟨rfl, rfl⟩ := consTrim_eq_nil_iff.1 hy
      rw [hy, List.forall₂_nil_right_iff, consTrim_eq_nil_iff, same_null_right,
        List.forall₂_nil_right_iff]
    · have hx' : consTrim x xs = x :: xs := by
        unfold consTrim at hx ⊢
        exact if_neg fun h => hx (if_pos h)
      have hy' : consTrim y ys = y :: ys := by
        unfold consTrim at hy ⊢
        exact if_neg fun h => hy (if_pos h)
      rw [hx', hy', List.forall₂_cons]

@[simp] theorem elemAt_nil (i : Nat) : elemAt ([] : List (Doc N)) i = .null := by
  rw [elemAt, List.getElem?_nil, Option.getD_none]

theorem forall_elemAt_cons (P : Doc N → Doc M → Prop) (x : Doc N) (y : Doc M) (xs : List (Doc N))
    (ys : List (Doc M)) :
    (∀ i, P (elemAt (x :: xs) i) (elemAt (y :: ys) i)) ↔ P x y ∧ ∀ i, P (elemAt xs i) (elemAt ys i) := by
  constructor
  · intro h
    exact ⟨h 0, fun i => h (i + 1)⟩
  · rintro ⟨hhead, htail⟩ i
    cases i with
    | zero =>
        exact hhead
    | succ i =>
        exact htail i

theorem dropElems_eq_nil_iff : dropElems arrays xs = [] ↔ ∀ i, elemAt xs i = .null := by
  induction xs with
  | nil =>
      simp [dropElems]
  | cons x xs ih =>
      rw [dropElems_cons, consTrim_eq_nil_iff, ih, ← isNull_iff, isNull_dropNulls, isNull_iff]
      exact (forall_elemAt_cons (fun d _ => d = .null) x x xs xs).symm

theorem forall₂_dropElems : List.Forall₂ (Same R) (dropElems arrays xs) (dropElems arrays ys) ↔
    ∀ i, Same R (dropNulls arrays (elemAt xs i)) (dropNulls arrays (elemAt ys i)) := by
  have hnull (d : Doc M) : dropNulls arrays d = .null ↔ d = .null := by
    rw [← isNull_iff, isNull_dropNulls, isNull_iff]
  have hnull' (d : Doc N) : dropNulls arrays d = .null ↔ d = .null := by
    rw [← isNull_iff, isNull_dropNulls, isNull_iff]
  induction xs generalizing ys with
  | nil =>
      rw [dropElems, List.forall₂_nil_left_iff, dropElems_eq_nil_iff]
      simp [hnull]
  | cons x xs ih =>
      cases ys with
      | nil =>
          rw [dropElems, List.forall₂_nil_right_iff, dropElems_eq_nil_iff]
          simp [hnull']
      | cons y ys =>
          -- Trimming goes from the end, so heads and tails can be compared apart.
          rw [dropElems_cons, dropElems_cons, forall₂_consTrim,
            forall_elemAt_cons (fun d e => Same R (dropNulls arrays d) (dropNulls arrays e))]
          exact and_congr_right fun _ => ih

/-- Arrays are the same without the nulls at their ends exactly when everything read from them is. -/
theorem same_dropNulls_arr : Same R (dropNulls true (.arr xs)) (dropNulls true (.arr ys)) ↔
    ∀ i, Same R (dropNulls true (elemAt xs i)) (dropNulls true (elemAt ys i)) := by
  rw [dropNulls, dropNulls, if_pos rfl, if_pos rfl, same_arr, forall₂_dropElems]

end Arrays

/-! ### Documents -/

theorem uniqueKeys_memberAt {ms : List (String × Doc N)} (h : UniqueKeys (.obj ms)) (k : String) :
    (memberAt ms k).UniqueKeys := by
  rcases memberAt_cases ms k with hk | ⟨-, hnone⟩
  · exact (uniqueKeys_obj.1 h).2 _ hk
  · rw [hnone]
    trivial

theorem uniqueKeys_elemAt {xs : List (Doc N)} (h : UniqueKeys (.arr xs)) (i : Nat) :
    (elemAt xs i).UniqueKeys := by
  rcases elemAt_cases xs i with hx | hnone
  · exact uniqueKeys_arr.1 h _ hx
  · rw [hnone]
    trivial

theorem Same.elemAt {xs : List (Doc N)} {ys : List (Doc M)} (h : Same R (.arr xs) (.arr ys)) (i : Nat) :
    Same R (elemAt xs i) (elemAt ys i) := by
  have hall : ∀ i, Same R (Doc.elemAt xs i) (Doc.elemAt ys i) := by
    rw [same_arr] at h
    induction h with
    | nil =>
        simp
    | cons hxy _ ih =>
        exact (forall_elemAt_cons (Same R) _ _ _ _).2 ⟨hxy, ih⟩
  exact hall i

/-- Documents that are the same are the same without their nulls. -/
theorem Same.dropNulls {d : Doc N} {e : Doc M} (hd : d.UniqueKeys) (he : e.UniqueKeys)
    (h : Same R d e) : Same R (dropNulls arrays d) (dropNulls arrays e) := by
  induction d using Doc.induct generalizing e with
  | null | bool | num | str =>
      cases e <;> simp_all [Same, Doc.dropNulls]
  | arr xs ih =>
      cases e with
      | arr ys =>
          cases arrays with
          | false =>
              rwa [Doc.dropNulls, Doc.dropNulls, if_neg Bool.false_ne_true, if_neg Bool.false_ne_true]
          | true =>
              refine same_dropNulls_arr.2 fun i => ?_
              have hsame := h.elemAt i
              rcases elemAt_cases xs i with hx | hnone
              · exact ih _ hx (uniqueKeys_elemAt hd i) (uniqueKeys_elemAt he i) hsame
              · rw [hnone, same_null_left] at hsame
                rw [hnone, hsame, dropNulls_null, dropNulls_null, same_null_left]
      | null | bool | num | str | obj =>
          simp [Same] at h
  | obj ms ih =>
      cases e with
      | obj ms' =>
          obtain ⟨hkeys, -⟩ := uniqueKeys_obj.1 hd
          obtain ⟨hkeys', -⟩ := uniqueKeys_obj.1 he
          refine (same_dropNulls_obj hkeys hkeys').2 fun k => ?_
          have hsame := h.memberAt hkeys' k
          rcases memberAt_cases ms k with hk | ⟨-, hnone⟩
          · exact ih _ hk (uniqueKeys_memberAt hd k) (uniqueKeys_memberAt he k) hsame
          · rw [hnone, same_null_left] at hsame
            rw [hnone, hsame, dropNulls_null, dropNulls_null, same_null_left]
      | null | bool | num | str | arr =>
          simp [Same] at h

end Nulls

/-- A document is the same as itself. -/
theorem Same.refl {R : N → N → Prop} (hR : ∀ n, R n n) (d : Doc N) : Same R d d := by
  induction d using Doc.induct with
  | null =>
      trivial
  | bool | str =>
      exact rfl
  | num n =>
      exact hR n
  | arr xs ih =>
      exact same_arr.2 (List.forall₂_same.2 ih)
  | obj ms ih =>
      exact same_obj.2 ⟨fun m hm => ⟨m.2, hm, ih m hm⟩, fun _ hk => hk⟩

end Doc
end Lib
end Aivcs
