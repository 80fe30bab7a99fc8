import Mathlib.Data.Finmap
import Mathlib.Data.List.Count
import Mathlib.Data.List.Sort

/-!
# Hash — hash maps and hash sets, and the order they are walked in

A hash map is a finite map and a hash set a finite set; neither has an order of its own.  Where a
program walks one, the order is a parameter: an `Iteration` lists every member of a set once, and
says no more.  Looking up a key that must be there, or changing the value behind it, is `none` when
it is not (`modify?`).
-/

namespace Aivcs
namespace Lib

/-- An order in which a set hands out its members. -/
structure Iteration (α : Type) where
  list : Finset α → List α
  nodup : ∀ s, (list s).Nodup
  mem_list : ∀ s a, a ∈ list s ↔ a ∈ s

namespace Iteration

variable {α : Type}

/-- Two walks over one set differ by a permutation. -/
theorem perm (it it' : Iteration α) (s : Finset α) : (it.list s).Perm (it'.list s) := by
  rw [List.perm_ext_iff_of_nodup (it.nodup s) (it'.nodup s)]
  intro a
  rw [it.mem_list, it'.mem_list]

end Iteration

section Sorted

variable {α : Type} [LinearOrder α]

theorem insertionSort_eq_of_perm {l l' : List α} (h : l.Perm l') :
    l.insertionSort (· ≤ ·) = l'.insertionSort (· ≤ ·) := by
  have hperm : (l.insertionSort (· ≤ ·)).Perm (l'.insertionSort (· ≤ ·)) :=
    ((List.perm_insertionSort _ l).trans h).trans (List.perm_insertionSort _ l').symm
  exact hperm.eq_of_sortedLE List.sortedLE_insertionSort List.sortedLE_insertionSort

variable (α) in
/-- The walk in increasing order. -/
def Iteration.sorted : Iteration α where
  list s := Quot.liftOn s.val (List.insertionSort (· ≤ ·)) fun _ _ h => insertionSort_eq_of_perm h
  nodup := by
    rintro ⟨⟨l⟩, hl⟩
    exact (List.perm_insertionSort _ l).nodup_iff.mpr hl
  mem_list := by
    rintro ⟨⟨l⟩, hl⟩ a
    exact List.mem_insertionSort _

end Sorted

section Stable

variable {α : Type} (r : α → α → Prop) [DecidableRel r]

theorem head?_orderedInsert (b : α) (l : List α) :
    (l.orderedInsert r b).head? = some (l.head?.elim b fun c => if r b c then b else c) := by
  cases l with
  | nil =>
      rfl
  | cons c l =>
      by_cases hbc : r b c <;> simp [List.orderedInsert, hbc]

/-- What a stable sort puts first when one more element comes last: it goes first only if it beats
the first of the others. -/
theorem head?_insertionSort_concat [IsTrans α r] [Std.Total r] {l : List α} {a : α} (x : α)
    (h : (l.insertionSort r).head? = some a) :
    ((l ++ [x]).insertionSort r).head? = some (if r a x then a else x) := by
  induction l generalizing a with
  | nil =>
      simp at h
  | cons b l ih =>
      rw [List.insertionSort_cons, head?_orderedInsert, Option.some.injEq] at h
      rw [List.cons_append, List.insertionSort_cons, head?_orderedInsert, Option.some.injEq]
      cases hl : (l.insertionSort r).head? with
      | none =>
          have hnil : l = [] := by
            simpa [← List.length_eq_zero_iff] using hl
          subst hnil
          subst h
          rfl
      | some c =>
          rw [ih hl, Option.elim_some]
          rw [hl, Option.elim_some] at h
          by_cases hbc : r b c
          · rw [if_pos hbc] at h
            subst h
            by_cases hcx : r c x
            · have hbx : r b x := IsTrans.trans b c x hbc hcx
              rw [if_pos hcx, if_pos hbc, if_pos hbx]
            · rw [if_neg hcx]
          · rw [if_neg hbc] at h
            subst h
            by_cases hcx : r c x
            · rw [if_pos hcx, if_neg hbc]
            · have hcb : r c b := (Std.Total.total c b).resolve_right hbc
              have hbx : ¬ r b x := fun hbx => hcx (IsTrans.trans c b x hcb hbx)
              rw [if_neg hcx, if_neg hbx]

end Stable

/-- A walk that looks up a value for every member succeeds when every lookup does. -/
theorem mapM_eq_some {α β : Type} {f : α → Option β} {l : List α}
    (h : ∀ a ∈ l, ∃ b, f a = some b) :
    ∃ bs, l.mapM f = some bs ∧ List.Forall₂ (fun a b => a ∈ l ∧ f a = some b) l bs := by
  induction l with
  | nil =>
      exact ⟨[], rfl, List.Forall₂.nil⟩
  | cons a l ih =>
      obtain ⟨b, hb⟩ := h a List.mem_cons_self
      obtain ⟨bs, hbs, hall⟩ := ih fun x hx => h x (List.mem_cons_of_mem a hx)
      refine ⟨b :: bs, by simp [List.mapM_cons, hb, hbs], ?_⟩
      refine List.Forall₂.cons ⟨List.mem_cons_self, hb⟩ (hall.imp ?_)
      rintro x y ⟨hx, hxy⟩
      exact ⟨List.mem_cons_of_mem a hx, hxy⟩

theorem exists_left_of_forall₂ {α β : Type} {R : α → β → Prop} {l : List α} {l' : List β}
    (h : List.Forall₂ R l l') {b : β} (hb : b ∈ l') : ∃ a ∈ l, R a b := by
  induction h with
  | nil =>
      exact absurd hb List.not_mem_nil
  | @cons a b' l l' hR _ ih =>
      rcases List.mem_cons.mp hb with rfl | hb
      · exact ⟨a, List.mem_cons_self, hR⟩
      · obtain ⟨a', ha', hR'⟩ := ih hb
        exact ⟨a', List.mem_cons_of_mem a ha', hR'⟩

theorem map_eq_of_forall₂ {α β γ : Type} {R : α → β → Prop} {f : α → γ} {f' : β → γ}
    (hR : ∀ a b, R a b → f a = f' b) {l : List α} {l' : List β} (h : List.Forall₂ R l l') :
    l.map f = l'.map f' := by
  induction h with
  | nil =>
      rfl
  | cons hab _ ih =>
      rw [List.map_cons, List.map_cons, hR _ _ hab, ih]

/-- A hash map, up to the order of its entries. -/
abbrev HashMap (K V : Type) : Type :=
  Finmap fun _ : K => V

namespace HashMap

variable {K V : Type} [DecidableEq K]

/-- `entry(k).or_insert(v)`. -/
def orInsert (m : HashMap K V) (k : K) (v : V) : HashMap K V :=
  if k ∈ m then m else m.insert k v

/-- `entry(k).or_insert(v)`, then a change of the value. -/
def upsert (m : HashMap K V) (k : K) (v : V) (f : V → V) : HashMap K V :=
  m.insert k (f ((m.lookup k).getD v))

/-- `get_mut(k).unwrap()`, then a change of the value. -/
def modify? (m : HashMap K V) (k : K) (f : V → V) : Option (HashMap K V) :=
  (m.lookup k).map fun v => m.insert k (f v)

theorem lookup_insert_apply (m : HashMap K V) (k k' : K) (v : V) :
    (m.insert k v).lookup k' = if k' = k then some v else m.lookup k' := by
  by_cases h : k' = k
  · subst h
    simp
  · simp [h, Finmap.lookup_insert_of_ne m h]

theorem lookup_orInsert (m : HashMap K V) (k k' : K) (v : V) :
    (m.orInsert k v).lookup k' = if k' = k then some ((m.lookup k).getD v) else m.lookup k' := by
  unfold orInsert
  split
  · next hk =>
    obtain ⟨w, hw⟩ := Finmap.mem_iff.mp hk
    by_cases h : k' = k
    · subst h
      simp [hw]
    · simp [h]
  · next hk =>
    rw [lookup_insert_apply, Finmap.lookup_eq_none.mpr hk]
    rfl

theorem lookup_upsert (m : HashMap K V) (k k' : K) (v : V) (f : V → V) :
    (m.upsert k v f).lookup k' =
      if k' = k then some (f ((m.lookup k).getD v)) else m.lookup k' :=
  lookup_insert_apply m k k' _

theorem mem_upsert {m : HashMap K V} {k k' : K} {v : V} {f : V → V} :
    k' ∈ m.upsert k v f ↔ k' = k ∨ k' ∈ m :=
  Finmap.mem_insert

/-! ## Maps of a list of entries -/

/-- Insert the entries one after the other; a later one replaces an earlier one. -/
def ofList (l : List (K × V)) : HashMap K V :=
  l.foldl (fun m x => m.insert x.1 x.2) ∅

theorem lookup_foldl_insert (l : List (K × V)) (m : HashMap K V) {k : K}
    (h : k ∉ l.map Prod.fst) :
    (l.foldl (fun m x => m.insert x.1 x.2) m).lookup k = m.lookup k := by
  induction l generalizing m with
  | nil =>
      rfl
  | cons y l ih =>
      rw [List.map_cons, List.mem_cons, not_or] at h
      rw [List.foldl_cons, ih _ h.2, Finmap.lookup_insert_of_ne m h.1]

/-- With distinct keys no entry is replaced. -/
theorem lookup_ofList {l : List (K × V)} (hnodup : (l.map Prod.fst).Nodup) {x : K × V}
    (hx : x ∈ l) : (ofList l).lookup x.1 = some x.2 := by
  obtain ⟨pre, post, rfl⟩ := List.append_of_mem hx
  rw [List.map_append, List.map_cons, List.nodup_append, List.nodup_cons] at hnodup
  rw [ofList, List.foldl_append, List.foldl_cons, lookup_foldl_insert post _ hnodup.2.1.1,
    Finmap.lookup_insert]

theorem mem_ofList {l : List (K × V)} {k : K} : k ∈ ofList l ↔ k ∈ l.map Prod.fst := by
  have hfold (l : List (K × V)) (m : HashMap K V) :
      k ∈ l.foldl (fun m x => m.insert x.1 x.2) m ↔ k ∈ m ∨ k ∈ l.map Prod.fst := by
    induction l generalizing m with
    | nil =>
        simp
    | cons y l ih =>
        rw [List.foldl_cons, ih, Finmap.mem_insert, List.map_cons, List.mem_cons]
        tauto
  rw [ofList, hfold]
  simp [Finmap.notMem_empty]

/-! ## Counting into a map -/

/-- Count the occurrences of a list, from zero for keys that are new. -/
def tally (m : HashMap K Nat) (l : List K) : HashMap K Nat :=
  l.foldl (fun m k => m.upsert k 0 (· + 1)) m

/-- Count the occurrences of a list of keys that must all be there. -/
def tally? (m : HashMap K Nat) : List K → Option (HashMap K Nat)
  | [] => some m
  | k :: rest =>
      match m.modify? k (· + 1) with
      | none => none
      | some m => tally? m rest

theorem mem_tally (m : HashMap K Nat) (l : List K) (k : K) : k ∈ m.tally l ↔ k ∈ m ∨ k ∈ l := by
  induction l generalizing m with
  | nil =>
      simp [tally]
  | cons a l ih =>
      have hstep : m.tally (a :: l) = (m.upsert a 0 (· + 1)).tally l := rfl
      rw [hstep, ih, mem_upsert, List.mem_cons]
      tauto

theorem lookup_tally_getD (m : HashMap K Nat) (l : List K) (k : K) :
    ((m.tally l).lookup k).getD 0 = (m.lookup k).getD 0 + l.count k := by
  induction l generalizing m with
  | nil =>
      simp [tally]
  | cons a l ih =>
      have hstep : m.tally (a :: l) = (m.upsert a 0 (· + 1)).tally l := rfl
      rw [hstep, ih, lookup_upsert, List.count_cons]
      by_cases h : k = a
      · subst h
        simp
        omega
      · have hne : ¬ a = k := fun h' => h h'.symm
        simp [h, hne]

theorem lookup_tally (m : HashMap K Nat) (l : List K) {k : K} (h : k ∈ m ∨ k ∈ l) :
    (m.tally l).lookup k = some ((m.lookup k).getD 0 + l.count k) := by
  obtain ⟨n, hn⟩ := Finmap.mem_iff.mp ((mem_tally m l k).mpr h)
  have hcount := lookup_tally_getD m l k
  rw [hn, Option.getD_some] at hcount
  rw [hn, hcount]

/-- When every key is there, the two ways of counting agree. -/
theorem tally?_eq (m : HashMap K Nat) (l : List K) (h : ∀ k ∈ l, k ∈ m) :
    m.tally? l = some (m.tally l) := by
  induction l generalizing m with
  | nil =>
      rfl
  | cons a l ih =>
      obtain ⟨n, hn⟩ := Finmap.mem_iff.mp (h a List.mem_cons_self)
      have hmodify : m.modify? a (· + 1) = some (m.upsert a 0 (· + 1)) := by
        simp [modify?, upsert, hn]
      have hrest : ∀ k ∈ l, k ∈ m.upsert a 0 (· + 1) := fun k hk =>
        mem_upsert.mpr (Or.inr (h k (List.mem_cons_of_mem a hk)))
      simp only [tally?, hmodify, ih _ hrest]
      rfl

end HashMap

end Lib
end Aivcs
