import Mathlib.Data.List.Chain
import Mathlib.Data.List.Perm.Subperm
import Mathlib.Data.List.Nodup
import Aivcs.Lib.RecursiveQuery

/-!
# Forest — records that name a parent by its key

`U` lists records with distinct keys; each names at most one parent, which need not be among them.  The
recursive query that starts at the records without a parent and follows the links finds a record in the
round of its depth, once.

* `mem_rounds_iff` — round `k` holds the records at depth `k`;
* `rounds_perm` — all of them are found, when every parent is there and the lines of descent are bounded
  (`grounded_of_bounded`).
-/

namespace Aivcs
namespace Lib
namespace Forest

open RecursiveQuery

variable {S K : Type} (key : S → K) (parent : S → Option K) (U : List S)

/-- The records without a parent. -/
def roots : List S :=
  U.filter fun s => (parent s).isNone

def children [DecidableEq K] (p : S) : List S :=
  U.filter fun s => parent s = some (key p)

/-- The records of round `k`. -/
def rounds [DecidableEq K] (k : Nat) : List S :=
  rowsAt (children key parent U) (roots parent U) k

/-- How many parents there are up to a root. -/
inductive AtDepth : S → Nat → Prop
  | root {s : S} (hs : s ∈ U) (h : parent s = none) : AtDepth s 0
  | child {s p : S} {k : Nat} (hs : s ∈ U) (h : parent s = some (key p)) (hp : AtDepth p k) :
      AtDepth s (k + 1)

/-- Every parent is there. -/
def Closed : Prop :=
  ∀ s ∈ U, ∀ k, parent s = some k → ∃ p ∈ U, key p = k

/-- Records each of which is the parent of the next. -/
structure IsLine (l : List S) : Prop where
  mem : ∀ s ∈ l, s ∈ U
  links : l.IsChain fun p s => parent s = some (key p)

variable {key parent U} {s p : S} {k : Nat}

theorem AtDepth.mem (h : AtDepth key parent U s k) : s ∈ U := by
  cases h with
  | root hs _ => exact hs
  | child hs _ _ => exact hs

theorem mem_rounds_iff [DecidableEq K] : s ∈ rounds key parent U k ↔ AtDepth key parent U s k := by
  induction k generalizing s with
  | zero =>
      simp only [rounds, rowsAt, roots, List.mem_filter, Option.isNone_iff_eq_none]
      constructor
      · rintro ⟨hs, h⟩
        exact AtDepth.root hs h
      · intro h
        cases h with
        | root hs h => exact ⟨hs, h⟩
  | succ k ih =>
      have hstep : s ∈ rounds key parent U (k + 1) ↔
          ∃ p ∈ rounds key parent U k, s ∈ children key parent U p :=
        List.mem_flatMap
      simp only [hstep, ih, children, List.mem_filter, decide_eq_true_eq]
      constructor
      · rintro ⟨p, hp, hs, h⟩
        exact AtDepth.child hs h hp
      · intro h
        cases h with
        | child hs h hp => exact ⟨_, hp, hs, h⟩

/-! ## Each record once -/

section Keys

variable (hkey : (U.map key).Nodup)

include hkey

theorem eq_of_key_eq {s t : S} (hs : s ∈ U) (ht : t ∈ U) (h : key s = key t) : s = t :=
  List.inj_on_of_nodup_map hkey hs ht h

theorem AtDepth.unique {k' : Nat} (h : AtDepth key parent U s k) (h' : AtDepth key parent U s k') :
    k = k' := by
  induction h generalizing k' with
  | root _ hnone =>
      cases h' with
      | root => rfl
      | child _ hsome _ => cases hnone.symm.trans hsome
  | child _ hp hdepth ih =>
      cases h' with
      | root _ hnone => cases hnone.symm.trans hp
      | child _ hp' hdepth' =>
          have hsame := eq_of_key_eq hkey hdepth.mem hdepth'.mem
            (Option.some.inj (hp.symm.trans hp'))
          subst hsame
          rw [ih hdepth']

theorem rounds_nodup [DecidableEq K] (k : Nat) : (rounds key parent U k).Nodup := by
  have hU : U.Nodup := List.Nodup.of_map key hkey
  induction k with
  | zero =>
      exact hU.filter _
  | succ k ih =>
      refine List.nodup_flatMap.2 ⟨fun p _ => hU.filter _, ?_⟩
      refine List.Pairwise.imp_of_mem ?_ ih
      -- A record has one parent, so two of the round before do not share a child.
      intro p q hp hq hne
      rw [Function.onFun, List.disjoint_left]
      intro s hs hs'
      have hsp : parent s = some (key p) := by simpa using (List.mem_filter.1 hs).2
      have hsq : parent s = some (key q) := by simpa using (List.mem_filter.1 hs').2
      exact hne (eq_of_key_eq hkey (mem_rounds_iff.1 hp).mem (mem_rounds_iff.1 hq).mem
        (Option.some.inj (hsp.symm.trans hsq)))

theorem flatMap_rounds_nodup [DecidableEq K] (n : Nat) : ((List.range n).flatMap (rounds key parent U)).Nodup := by
  refine List.nodup_flatMap.2 ⟨fun k _ => rounds_nodup hkey k, ?_⟩
  refine List.Pairwise.imp ?_ List.nodup_range
  intro k k' hne
  rw [Function.onFun, List.disjoint_left]
  intro s hs hs'
  exact hne ((mem_rounds_iff.1 hs).unique hkey (mem_rounds_iff.1 hs'))

/-- A line of descent has no repetition, so it is no longer than the list. -/
theorem AtDepth.lt_length (h : AtDepth key parent U s k) : k < U.length := by
  -- There is a record at every depth up to this one, and no record at two.
  have hbelow : ∀ j, j ≤ k → ∃ t, AtDepth key parent U t j := by
    induction h with
    | root hs h =>
        intro j hj
        obtain rfl : j = 0 := Nat.le_zero.1 hj
        exact ⟨_, AtDepth.root hs h⟩
    | @child s p k hs h hp ih =>
        intro j hj
        rcases Nat.le_succ_iff.1 hj with hle | rfl
        · exact ih j hle
        · exact ⟨s, AtDepth.child hs h hp⟩
  have : Nonempty S := ⟨s⟩
  choose! f hf using hbelow
  have hnodup : ((List.range (k + 1)).map f).Nodup := by
    refine List.Nodup.map_on ?_ List.nodup_range
    intro i hi j hj heq
    have hi' := hf i (Nat.lt_succ_iff.1 (List.mem_range.1 hi))
    have hj' := hf j (Nat.lt_succ_iff.1 (List.mem_range.1 hj))
    rw [heq] at hi'
    exact hi'.unique hkey hj'
  have hsub : (List.range (k + 1)).map f ⊆ U := by
    intro t ht
    rcases List.mem_map.1 ht with ⟨j, hj, rfl⟩
    exact (hf j (Nat.lt_succ_iff.1 (List.mem_range.1 hj))).mem
  calc
    k < ((List.range (k + 1)).map f).length := by simp
    _ ≤ U.length := (List.subperm_of_subset hnodup hsub).length_le

theorem rounds_length [DecidableEq K] : rounds key parent U U.length = [] := by
  refine List.eq_nil_iff_forall_not_mem.2 fun s hs => ?_
  exact Nat.lt_irrefl _ ((mem_rounds_iff.1 hs).lt_length hkey)

/-- The rounds hold every record that has a depth, once. -/
theorem rounds_perm [DecidableEq K] (h : ∀ s ∈ U, ∃ k, AtDepth key parent U s k) :
    ((List.range U.length).flatMap (rounds key parent U)).Perm U := by
  rw [List.perm_ext_iff_of_nodup (flatMap_rounds_nodup hkey _) (List.Nodup.of_map key hkey)]
  intro s
  simp only [List.mem_flatMap, List.mem_range, mem_rounds_iff]
  constructor
  · rintro ⟨k, _, hs⟩
    exact hs.mem
  · intro hs
    rcases h s hs with ⟨k, hk⟩
    exact ⟨k, hk.lt_length hkey, hk⟩

/-- A line that ends at a record is no longer than its depth. -/
theorem AtDepth.length_le {l : List S} (h : AtDepth key parent U s k)
    (hl : IsLine key parent U (l ++ [s])) : l.length ≤ k := by
  induction l using List.reverseRecOn generalizing s k with
  | nil =>
      exact Nat.zero_le k
  | append_singleton l p ih =>
      have hlinks : parent s = some (key p) ∧ (l ++ [p]).IsChain fun p s => parent s = some (key p) := by
        have := hl.links
        rw [List.append_assoc, List.singleton_append, List.isChain_split, List.isChain_pair] at this
        exact ⟨this.2, this.1⟩
      have hmem : ∀ t ∈ l ++ [p], t ∈ U := fun t ht => hl.mem t (List.mem_append_left _ ht)
      cases h with
      | root _ hnone =>
          cases hnone.symm.trans hlinks.1
      | child _ hp hdepth =>
          have hsame := eq_of_key_eq hkey (hmem p (by simp)) hdepth.mem
            (Option.some.inj (hlinks.1.symm.trans hp))
          subst hsame
          have := ih hdepth ⟨hmem, hlinks.2⟩
          simpa using this

end Keys

/-! ## Lines of descent -/

theorem IsLine.concat {l : List S} (h : IsLine key parent U (l ++ [p])) (hs : s ∈ U)
    (hp : parent s = some (key p)) : IsLine key parent U (l ++ [p] ++ [s]) where
  mem := by
    intro t ht
    rcases List.mem_append.1 ht with hold | hnew
    · exact h.mem t hold
    · rwa [List.mem_singleton.1 hnew]
  links := by
    rw [List.append_assoc, List.singleton_append, List.isChain_split, List.isChain_pair]
    exact ⟨h.links, hp⟩

/-- Up its line of descent a record reaches a root, or the line is as long as one likes. -/
theorem atDepth_or_line (hclosed : Closed key parent U) (n : Nat) (hs : s ∈ U) :
    (∃ k, AtDepth key parent U s k) ∨ ∃ l, IsLine key parent U (l ++ [s]) ∧ l.length = n := by
  induction n generalizing s with
  | zero =>
      refine Or.inr ⟨[], ⟨?_, List.isChain_singleton s⟩, rfl⟩
      intro t ht
      rwa [List.mem_singleton.1 ht]
  | succ n ih =>
      cases hparent : parent s with
      | none =>
          exact Or.inl ⟨0, AtDepth.root hs hparent⟩
      | some k =>
          rcases hclosed s hs k hparent with ⟨p, hp, rfl⟩
          rcases ih hp with ⟨k, hk⟩ | ⟨l, hline, rfl⟩
          · exact Or.inl ⟨k + 1, AtDepth.child hs hparent hk⟩
          · exact Or.inr ⟨l ++ [p], hline.concat hs hparent, by simp⟩

theorem AtDepth.exists_line (h : AtDepth key parent U s k) :
    ∃ l, IsLine key parent U (l ++ [s]) ∧ l.length = k := by
  induction h with
  | @root s hs _ =>
      refine ⟨[], ⟨?_, List.isChain_singleton s⟩, rfl⟩
      intro t ht
      rwa [List.mem_singleton.1 ht]
  | child hs hp _ ih =>
      rcases ih with ⟨l, hline, rfl⟩
      exact ⟨_, hline.concat hs hp, by simp⟩

/-- With every parent there and no line of `n` records, every record has a depth below `n`. -/
theorem grounded_of_bounded {n : Nat} (hclosed : Closed key parent U)
    (hbound : ∀ l, IsLine key parent U l → l.length < n) (hs : s ∈ U) :
    ∃ k, AtDepth key parent U s k ∧ k + 1 < n := by
  rcases atDepth_or_line hclosed n hs with ⟨k, hk⟩ | ⟨l, hline, hlength⟩
  · rcases hk.exists_line with ⟨l, hline, rfl⟩
    refine ⟨l.length, hk, ?_⟩
    simpa using hbound _ hline
  · have := hbound _ hline
    simp only [List.length_append, List.length_singleton, hlength] at this
    omega

end Forest
end Lib
end Aivcs
