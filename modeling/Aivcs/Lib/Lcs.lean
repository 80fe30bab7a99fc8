import Mathlib.Algebra.BigOperators.Group.Finset.Piecewise
import Mathlib.Data.Finset.Card
import Mathlib.Data.List.Basic
import Mathlib.Data.List.Sort

/-!
# Lcs — longest common subsequences by dynamic programming

`alignment xs ys` fills the table of the lengths of longest common subsequences of prefixes, row by row, and
walks back from its last entry.

* `Common xs ys pairs` — the pairs of positions spell a common subsequence;
* `longest_alignment` — the alignment is one, and none is longer;
* `Common.eq_diagonal`, `alignment_self` — it leaves nothing over only for a text and itself;
* `length_alignment_comm` — its length does not depend on which text comes first;
* `card_unused_left`, `card_unused_right`, `sum_used` — how often each letter is left over.
-/

namespace Aivcs
namespace Lib
namespace Lcs

variable {α : Type}

/-! ## Common subsequences -/

/-- The positions spell a common subsequence. -/
structure Common (xs ys : List α) (pairs : List (Nat × Nat)) : Prop where
  increasing : pairs.Pairwise fun p q => p.1 < q.1 ∧ p.2 < q.2
  same : ∀ p ∈ pairs, ∃ a, xs[p.1]? = some a ∧ ys[p.2]? = some a

section Common

variable {xs ys : List α} {pairs : List (Nat × Nat)} {i j : Nat}

theorem Common.init {last : Nat × Nat} (h : Common xs ys (pairs ++ [last])) :
    Common xs ys pairs ∧ ∀ p ∈ pairs, p.1 < last.1 ∧ p.2 < last.2 := by
  obtain ⟨hinit, -, hlast⟩ := List.pairwise_append.1 h.increasing
  exact ⟨⟨hinit, fun p hp => h.same p (List.mem_append_left _ hp)⟩,
    fun p hp => hlast p hp last (List.mem_singleton.2 rfl)⟩

theorem Common.swap (h : Common xs ys pairs) : Common ys xs (pairs.map Prod.swap) where
  increasing := List.pairwise_map.2 (h.increasing.imp And.symm)
  same := by
    intro p hp
    obtain ⟨q, hq, rfl⟩ := List.mem_map.1 hp
    obtain ⟨a, hx, hy⟩ := h.same q hq
    exact ⟨a, hy, hx⟩

/-- The last letters differ, so one of them is not used. -/
theorem Common.below_of_ne (h : Common xs ys pairs) (hin : ∀ p ∈ pairs, p.1 < i + 1 ∧ p.2 < j + 1)
    (hne : xs[i]? ≠ ys[j]?) :
    (∀ p ∈ pairs, p.1 < i ∧ p.2 < j + 1) ∨ ∀ p ∈ pairs, p.1 < i + 1 ∧ p.2 < j := by
  rcases List.eq_nil_or_concat' pairs with rfl | ⟨init, last, rfl⟩
  · exact .inl (List.forall_mem_nil _)
  · obtain ⟨-, hbelow⟩ := h.init
    have hle : ∀ p ∈ init ++ [last], p.1 ≤ last.1 ∧ p.2 ≤ last.2 := by
      intro p hp
      rcases List.mem_append.1 hp with hp | hp
      · exact ⟨Nat.le_of_lt (hbelow p hp).1, Nat.le_of_lt (hbelow p hp).2⟩
      · rw [List.mem_singleton.1 hp]
        exact ⟨Nat.le_refl _, Nat.le_refl _⟩
    obtain ⟨hlast₁, hlast₂⟩ := hin last (by simp)
    -- The last pair ends in at most one of the two letters, and no other pair goes beyond it.
    by_cases hi : last.1 = i
    · have hj : last.2 ≠ j := by
        rintro rfl
        obtain ⟨a, hx, hy⟩ := h.same last (by simp)
        rw [hi] at hx
        exact hne (hx.trans hy.symm)
      exact .inr fun p hp => ⟨(hin p hp).1, by have := (hle p hp).2; omega⟩
    · exact .inl fun p hp => ⟨by have := (hle p hp).1; omega, (hin p hp).2⟩

theorem Common.lt_length (h : Common xs ys pairs) {p : Nat × Nat} (hp : p ∈ pairs) :
    p.1 < xs.length ∧ p.2 < ys.length := by
  obtain ⟨a, hx, hy⟩ := h.same p hp
  exact ⟨(List.getElem?_eq_some_iff.1 hx).1, (List.getElem?_eq_some_iff.1 hy).1⟩

theorem Common.fst_eq_range (h : Common xs ys pairs)
    (hall : ∀ i < xs.length, i ∈ pairs.map Prod.fst) : pairs.map Prod.fst = List.range xs.length := by
  have hsorted : (pairs.map Prod.fst).Pairwise (· < ·) :=
    List.pairwise_map.2 (h.increasing.imp And.left)
  refine hsorted.eq_of_mem_iff List.pairwise_lt_range fun i => ?_
  rw [List.mem_range]
  refine ⟨fun hi => ?_, hall i⟩
  obtain ⟨p, hp, rfl⟩ := List.mem_map.1 hi
  exact (h.lt_length hp).1

/-- Pairs that leave no position over pair every position with itself, so the texts are the same. -/
theorem Common.eq_diagonal (h : Common xs ys pairs) (hx : ∀ i < xs.length, i ∈ pairs.map Prod.fst)
    (hy : ∀ j < ys.length, j ∈ pairs.map Prod.snd) :
    xs = ys ∧ pairs = (List.range xs.length).map fun i => (i, i) := by
  have hfst := h.fst_eq_range hx
  have hsnd : pairs.map Prod.snd = List.range ys.length := by
    have hswap : (pairs.map Prod.swap).map Prod.fst = pairs.map Prod.snd := List.map_map
    rw [← hswap]
    exact h.swap.fst_eq_range fun j hj => hswap ▸ hy j hj
  have hlen : xs.length = ys.length := by
    have hlenx := congrArg List.length hfst
    have hleny := congrArg List.length hsnd
    rw [List.length_map, List.length_range] at hlenx hleny
    exact hlenx.symm.trans hleny
  have hdiag : pairs = (List.range xs.length).map fun i => (i, i) := by
    have hzip := List.zip_unzip pairs
    rw [List.unzip_eq_map] at hzip
    calc pairs = (pairs.map Prod.fst).zip (pairs.map Prod.snd) := hzip.symm
      _ = (List.range xs.length).zip (List.range xs.length) := by rw [hfst, hsnd, hlen]
      _ = (List.range xs.length).map fun i => (i, i) := by
          simpa using List.zip_map' (f := id) (g := id) (l := List.range xs.length)
  refine ⟨List.ext_getElem? fun i => ?_, hdiag⟩
  by_cases hi : i < xs.length
  · have hmem : (i, i) ∈ pairs := by
      rw [hdiag]
      exact List.mem_map.2 ⟨i, List.mem_range.2 hi, rfl⟩
    obtain ⟨a, hxa, hya⟩ := h.same _ hmem
    rw [hxa, hya]
  · rw [List.getElem?_eq_none (Nat.not_lt.1 hi), List.getElem?_eq_none (hlen ▸ Nat.not_lt.1 hi)]

end Common

/-- No common subsequence is longer. -/
structure Longest (xs ys : List α) (pairs : List (Nat × Nat)) : Prop extends Common xs ys pairs where
  longest : ∀ other, Common xs ys other → other.length ≤ pairs.length

variable [DecidableEq α]

/-! ## The algorithm -/

/-- The entries of a row, from the row above; `left` is the entry before them. -/
def rowFrom (x : α) (left : Nat) : List Nat → List α → List Nat
  | diagonal :: up :: above, y :: ys =>
      let entry := if x = y then diagonal + 1 else max left up
      entry :: rowFrom x entry (up :: above) ys
  | _, _ => []

/-- The rows below a row. -/
def rowsFrom (ys : List α) (above : List Nat) : List α → List (List Nat)
  | [] => []
  | x :: xs =>
      let row := 0 :: rowFrom x 0 above ys
      row :: rowsFrom ys row xs

/-- The table: entry `(i, j)` is for the first `i` letters of `xs` and the first `j` of `ys`. -/
def table (xs ys : List α) : List (List Nat) :=
  List.replicate (ys.length + 1) 0 :: rowsFrom ys (List.replicate (ys.length + 1) 0) xs

def entry (dp : List (List Nat)) (i j : Nat) : Nat :=
  (dp.getD i []).getD j 0

/-- The walk back from entry `(i, j)`: the pairs in the order they are pushed, from the last one. -/
def walkBack (xs ys : List α) (dp : List (List Nat)) : Nat → Nat → List (Nat × Nat)
  | i + 1, j + 1 =>
      if xs[i]? = ys[j]? then (i, j) :: walkBack xs ys dp i j
      else if entry dp i (j + 1) < entry dp (i + 1) j then walkBack xs ys dp (i + 1) j
      else walkBack xs ys dp i (j + 1)
  | _, _ => []
  termination_by i j => i + j

def alignment (xs ys : List α) : List (Nat × Nat) :=
  if xs.length = 0 ∨ ys.length = 0 then []
  else (walkBack xs ys (table xs ys) xs.length ys.length).reverse

/-! ## The table -/

section Table

variable {xs ys : List α} {above : List Nat}

theorem length_rowFrom (x : α) (left : Nat) (habove : above.length = ys.length + 1) :
    (rowFrom x left above ys).length = ys.length := by
  induction ys generalizing left above with
  | nil =>
      cases above <;> simp [rowFrom]
  | cons y ys ih =>
      match above, habove with
      | diagonal :: up :: above, habove =>
          have hrest : (up :: above).length = ys.length + 1 := by simpa using habove
          rw [rowFrom, List.length_cons, List.length_cons, ih _ hrest]

/-- An entry of a row, from its three neighbours. -/
theorem getD_rowFrom (x : α) (left : Nat) (habove : above.length = ys.length + 1) {j : Nat}
    (hj : j < ys.length) :
    let row := left :: rowFrom x left above ys
    row.getD (j + 1) 0 =
      if ys[j]? = some x then above.getD j 0 + 1 else max (row.getD j 0) (above.getD (j + 1) 0) := by
  induction ys generalizing left above j with
  | nil =>
      simp at hj
  | cons y ys ih =>
      match above, habove with
      | diagonal :: up :: above, habove =>
          have hrest : (up :: above).length = ys.length + 1 := by simpa using habove
          cases j with
          | zero =>
              simp [rowFrom, eq_comm]
          | succ j =>
              have hj' : j < ys.length := by simpa using hj
              simpa [rowFrom] using ih _ hrest hj'

theorem length_row (habove : above.length = ys.length + 1) {i : Nat} (hi : i ≤ xs.length) :
    ((above :: rowsFrom ys above xs).getD i []).length = ys.length + 1 := by
  induction xs generalizing above i with
  | nil =>
      obtain rfl : i = 0 := by simpa using hi
      simpa using habove
  | cons x xs ih =>
      cases i with
      | zero =>
          simpa using habove
      | succ i =>
          have hrow : (0 :: rowFrom x 0 above ys).length = ys.length + 1 := by
            rw [List.length_cons, length_rowFrom x 0 habove]
          simpa [rowsFrom] using ih hrow (by simpa using hi)

/-- A row is made from the one above it. -/
theorem getD_rowsFrom (above : List Nat) {i : Nat} {x : α} (hx : xs[i]? = some x) :
    (above :: rowsFrom ys above xs).getD (i + 1) [] =
      0 :: rowFrom x 0 ((above :: rowsFrom ys above xs).getD i []) ys := by
  induction xs generalizing above i with
  | nil =>
      simp at hx
  | cons x' xs ih =>
      cases i with
      | zero =>
          obtain rfl : x' = x := by simpa using hx
          simp [rowsFrom]
      | succ i =>
          have hrest : xs[i]? = some x := by simpa using hx
          simpa [rowsFrom] using ih (0 :: rowFrom x' 0 above ys) hrest

theorem entry_zero_left (j : Nat) : entry (table xs ys) 0 j = 0 := by
  simp only [entry, table, List.getD_eq_getElem?_getD, List.getElem?_cons_zero, Option.getD_some,
    List.getElem?_replicate]
  split <;> rfl

theorem entry_zero_right {i : Nat} (hi : i ≤ xs.length) : entry (table xs ys) i 0 = 0 := by
  cases i with
  | zero =>
      exact entry_zero_left 0
  | succ i =>
      rw [entry, table, getD_rowsFrom _ (List.getElem?_eq_getElem hi)]
      rfl

theorem entry_succ {i j : Nat} (hi : i < xs.length) (hj : j < ys.length) :
    entry (table xs ys) (i + 1) (j + 1) =
      if xs[i]? = ys[j]? then entry (table xs ys) i j + 1
      else max (entry (table xs ys) (i + 1) j) (entry (table xs ys) i (j + 1)) := by
  have hx : xs[i]? = some xs[i] := List.getElem?_eq_getElem hi
  have habove : (List.replicate (ys.length + 1) 0).length = ys.length + 1 := List.length_replicate
  simp only [entry, table]
  rw [getD_rowsFrom _ hx, getD_rowFrom _ 0 (length_row habove (Nat.le_of_lt hi)) hj, hx]
  simp only [eq_comm]

end Table

/-! ## The alignment is longest -/

section Longest

variable {xs ys : List α} {pairs : List (Nat × Nat)} {i j : Nat}

/-- No common subsequence of two prefixes is longer than their entry of the table. -/
theorem Common.length_le_entry (h : Common xs ys pairs) (hin : ∀ p ∈ pairs, p.1 < i ∧ p.2 < j)
    (hi : i ≤ xs.length) (hj : j ≤ ys.length) : pairs.length ≤ entry (table xs ys) i j := by
  -- On both prefixes, the way the table is filled.
  induction i generalizing j pairs with
  | zero =>
      have hnil : pairs = [] :=
        List.eq_nil_iff_forall_not_mem.2 fun p hp => Nat.not_lt_zero _ (hin p hp).1
      rw [hnil]
      exact Nat.zero_le _
  | succ i ihi =>
      induction j generalizing pairs with
      | zero =>
          have hnil : pairs = [] :=
            List.eq_nil_iff_forall_not_mem.2 fun p hp => Nat.not_lt_zero _ (hin p hp).2
          rw [hnil]
          exact Nat.zero_le _
      | succ j ihj =>
          rw [entry_succ hi hj]
          by_cases hsame : xs[i]? = ys[j]?
          · rw [if_pos hsame]
            rcases List.eq_nil_or_concat' pairs with rfl | ⟨init, last, rfl⟩
            · exact Nat.zero_le _
            · -- Without its last pair the subsequence is below the entry on the diagonal.
              obtain ⟨hinit, hbelow⟩ := h.init
              obtain ⟨hlast₁, hlast₂⟩ := hin last (by simp)
              have hin' : ∀ p ∈ init, p.1 < i ∧ p.2 < j := fun p hp =>
                ⟨by have := (hbelow p hp).1; omega, by have := (hbelow p hp).2; omega⟩
              rw [List.length_append, List.length_singleton]
              exact Nat.succ_le_succ (ihi hinit hin' (Nat.le_of_lt hi) (Nat.le_of_lt hj))
          · rw [if_neg hsame]
            rcases h.below_of_ne hin hsame with hin' | hin'
            · exact Nat.le_trans (ihi h hin' (Nat.le_of_lt hi) hj) (Nat.le_max_right _ _)
            · exact Nat.le_trans (ihj h hin' (Nat.le_of_lt hj)) (Nat.le_max_left _ _)

/-- The walk back: pairs of equal letters below the entry it starts at, each below the one before, as many
as the entry says. -/
theorem walkBack_spec (hi : i ≤ xs.length) (hj : j ≤ ys.length) :
    (∀ p ∈ walkBack xs ys (table xs ys) i j, p.1 < i ∧ p.2 < j ∧ xs[p.1]? = ys[p.2]?) ∧
      (walkBack xs ys (table xs ys) i j).Pairwise (fun p q => q.1 < p.1 ∧ q.2 < p.2) ∧
      (walkBack xs ys (table xs ys) i j).length = entry (table xs ys) i j := by
  fun_induction walkBack xs ys (table xs ys) i j with
  | case1 i j hsame ih =>
      obtain ⟨hmem, hpairs, hlen⟩ := ih (Nat.le_of_lt hi) (Nat.le_of_lt hj)
      refine ⟨?_, List.pairwise_cons.2 ⟨?_, hpairs⟩, ?_⟩
      · intro p hp
        rcases List.mem_cons.1 hp with rfl | hp
        · exact ⟨Nat.lt_succ_self _, Nat.lt_succ_self _, hsame⟩
        · obtain ⟨h₁, h₂, h₃⟩ := hmem p hp
          exact ⟨Nat.lt_succ_of_lt h₁, Nat.lt_succ_of_lt h₂, h₃⟩
      · intro p hp
        exact ⟨(hmem p hp).1, (hmem p hp).2.1⟩
      · rw [entry_succ hi hj, if_pos hsame, List.length_cons, hlen]
  | case2 i j hne hlt ih =>
      -- The entry on the left is the larger one; going there keeps the length.
      obtain ⟨hmem, hpairs, hlen⟩ := ih hi (Nat.le_of_lt hj)
      refine ⟨?_, hpairs, ?_⟩
      · intro p hp
        obtain ⟨h₁, h₂, h₃⟩ := hmem p hp
        exact ⟨h₁, Nat.lt_succ_of_lt h₂, h₃⟩
      · rw [entry_succ hi hj, if_neg hne, hlen, Nat.max_eq_left (Nat.le_of_lt hlt)]
  | case3 i j hne hlt ih =>
      -- The entry above is at least as large; ties go up.
      obtain ⟨hmem, hpairs, hlen⟩ := ih (Nat.le_of_lt hi) hj
      refine ⟨?_, hpairs, ?_⟩
      · intro p hp
        obtain ⟨h₁, h₂, h₃⟩ := hmem p hp
        exact ⟨Nat.lt_succ_of_lt h₁, h₂, h₃⟩
      · rw [entry_succ hi hj, if_neg hne, hlen, Nat.max_eq_right (Nat.le_of_not_lt hlt)]
  | case4 i j hzero =>
      refine ⟨List.forall_mem_nil _, List.Pairwise.nil, ?_⟩
      cases i with
      | zero =>
          rw [entry_zero_left]
          rfl
      | succ i =>
          cases j with
          | zero =>
              rw [entry_zero_right hi]
              rfl
          | succ j =>
              exact absurd rfl (hzero i j rfl)

theorem alignment_eq (xs ys : List α) :
    alignment xs ys = (walkBack xs ys (table xs ys) xs.length ys.length).reverse := by
  unfold alignment
  split
  · rename_i hempty
    -- without letters the walk ends where it starts
    have hlen : (walkBack xs ys (table xs ys) xs.length ys.length).length = 0 := by
      rw [(walkBack_spec (Nat.le_refl _) (Nat.le_refl _)).2.2]
      rcases hempty with hx | hy
      · rw [hx, entry_zero_left]
      · rw [hy, entry_zero_right (Nat.le_refl _)]
    rw [List.length_eq_zero_iff.1 hlen, List.reverse_nil]
  · rfl

theorem common_alignment (xs ys : List α) : Common xs ys (alignment xs ys) := by
  obtain ⟨hmem, hpairs, -⟩ := walkBack_spec (Nat.le_refl xs.length) (Nat.le_refl ys.length)
  rw [alignment_eq]
  refine ⟨List.pairwise_reverse.2 hpairs, ?_⟩
  intro p hp
  obtain ⟨hi, hj, hsame⟩ := hmem p (List.mem_reverse.1 hp)
  exact ⟨xs[p.1], List.getElem?_eq_getElem hi, by rw [← hsame, List.getElem?_eq_getElem hi]⟩

/-- The alignment is a longest common subsequence. -/
theorem longest_alignment (xs ys : List α) : Longest xs ys (alignment xs ys) where
  toCommon := common_alignment xs ys
  longest := by
    intro other h
    have hin : ∀ p ∈ other, p.1 < xs.length ∧ p.2 < ys.length := by
      intro p hp
      obtain ⟨a, hx, hy⟩ := h.same p hp
      exact ⟨(List.getElem?_eq_some_iff.1 hx).1, (List.getElem?_eq_some_iff.1 hy).1⟩
    obtain ⟨-, -, hlen⟩ := walkBack_spec (Nat.le_refl xs.length) (Nat.le_refl ys.length)
    rw [alignment_eq, List.length_reverse, hlen]
    exact h.length_le_entry hin (Nat.le_refl _) (Nat.le_refl _)

theorem length_alignment_comm (xs ys : List α) :
    (alignment xs ys).length = (alignment ys xs).length := by
  have hle (xs ys : List α) : (alignment xs ys).length ≤ (alignment ys xs).length := by
    simpa using (longest_alignment ys xs).longest _ (common_alignment xs ys).swap
  exact Nat.le_antisymm (hle xs ys) (hle ys xs)

/-- The walk back over a text and itself never leaves the diagonal. -/
theorem walkBack_self (xs : List α) (dp : List (List Nat)) (k : Nat) :
    walkBack xs xs dp k k = ((List.range k).map fun i => (i, i)).reverse := by
  induction k with
  | zero =>
      rw [walkBack]
      · rfl
      · exact fun i j hi => absurd hi (Nat.succ_ne_zero i).symm
  | succ k ih =>
      rw [walkBack, if_pos rfl, ih, List.range_succ, List.map_append, List.reverse_append]
      rfl

theorem alignment_self (xs : List α) :
    alignment xs xs = (List.range xs.length).map fun i => (i, i) := by
  rw [alignment_eq, walkBack_self, List.reverse_reverse]

end Longest

/-! ## Counting letters -/

section Counting

variable {xs ys : List α} {pairs : List (Nat × Nat)}

/-- The positions of a letter. -/
def positions (xs : List α) (a : α) : Finset Nat :=
  (Finset.range xs.length).filter fun i => xs[i]? = some a

theorem mem_positions {a : α} {i : Nat} : i ∈ positions xs a ↔ xs[i]? = some a := by
  rw [positions, Finset.mem_filter, Finset.mem_range]
  exact and_iff_right_of_imp fun h => (List.getElem?_eq_some_iff.1 h).1

/-- Counting the items with a letter, at the positions that satisfy `p`. -/
theorem countP_zipIdx {β : Type} (letter : β → α) (items : List β) (a : α) (p : Nat → Prop)
    [DecidablePred p] : items.zipIdx.countP (fun x => letter x.1 = a ∧ p x.2) =
      ((positions (items.map letter) a).filter p).card := by
  have hnodup : (items.zipIdx.map Prod.snd).Nodup := by
    rw [List.zipIdx_map_snd]
    exact List.nodup_range'
  have hset : (positions (items.map letter) a).filter p =
      (items.zipIdx.map Prod.snd).toFinset.filter fun i => (items.map letter)[i]? = some a ∧ p i := by
    ext i
    rw [Finset.mem_filter, Finset.mem_filter, mem_positions, List.mem_toFinset, List.zipIdx_map_snd,
      List.mem_range'_1]
    constructor
    · rintro ⟨hi, hp⟩
      have hlt := (List.getElem?_eq_some_iff.1 hi).1
      rw [List.length_map] at hlt
      exact ⟨⟨Nat.zero_le _, by omega⟩, hi, hp⟩
    · rintro ⟨-, hi, hp⟩
      exact ⟨hi, hp⟩
  rw [hset, hnodup.card_eq_countP, List.countP_map]
  refine List.countP_congr ?_
  intro x hx
  have hitem : items[x.2]? = some x.1 := List.mk_mem_zipIdx_iff_getElem?.1 hx
  simp [hitem]

theorem card_positions (xs : List α) (a : α) : (positions xs a).card = xs.count a := by
  have hzip := countP_zipIdx id xs a fun _ => True
  rw [List.map_id, Finset.filter_true] at hzip
  rw [← hzip, List.count_eq_countP]
  calc
    xs.zipIdx.countP (fun x => id x.1 = a ∧ True) = (xs.zipIdx.map Prod.fst).countP (· == a) := by
        rw [List.countP_map]
        exact List.countP_congr fun x _ => by simp
    _ = xs.countP (· == a) := by rw [List.zipIdx_map_fst]

/-- How many pairs are of the letter. -/
def used (xs : List α) (pairs : List (Nat × Nat)) (a : α) : Nat :=
  pairs.countP fun p => xs[p.1]? = some a

theorem card_used_left (h : Common xs ys pairs) (a : α) :
    ((positions xs a).filter (· ∈ pairs.map Prod.fst)).card = used xs pairs a := by
  have hnodup : (pairs.map Prod.fst).Nodup :=
    (List.pairwise_map.2 (h.increasing.imp And.left)).imp fun hlt => Nat.ne_of_lt hlt
  have hset : (positions xs a).filter (· ∈ pairs.map Prod.fst) =
      (pairs.map Prod.fst).toFinset.filter fun i => xs[i]? = some a := by
    ext i
    rw [Finset.mem_filter, Finset.mem_filter, mem_positions, List.mem_toFinset, and_comm]
  rw [hset, hnodup.card_eq_countP, List.countP_map]
  rfl

/-- What is left of a letter on the left. -/
theorem card_unused_left (h : Common xs ys pairs) (a : α) :
    ((positions xs a).filter (· ∉ pairs.map Prod.fst)).card + used xs pairs a = xs.count a := by
  have hsplit := Finset.card_filter_add_card_filter_not (s := positions xs a) (· ∈ pairs.map Prod.fst)
  rw [card_used_left h, card_positions] at hsplit
  omega

theorem used_swap (h : Common xs ys pairs) (a : α) :
    used ys (pairs.map Prod.swap) a = used xs pairs a := by
  rw [used, used, List.countP_map]
  refine List.countP_congr fun p hp => ?_
  obtain ⟨b, hx, hy⟩ := h.same p hp
  simp [hx, hy]

/-- What is left of a letter on the right. -/
theorem card_unused_right (h : Common xs ys pairs) (a : α) :
    ((positions ys a).filter (· ∉ pairs.map Prod.snd)).card + used xs pairs a = ys.count a := by
  have hswap := card_unused_left h.swap a
  rwa [used_swap h, List.map_map] at hswap

/-- Counting by key, then all keys together. -/
theorem sum_countP {β : Type} (key : β → Option α) (items : List β) (keys : Finset α)
    (hall : ∀ x ∈ items, ∀ a, key x = some a → a ∈ keys) :
    ∑ a ∈ keys, items.countP (fun x => key x = some a) = items.countP fun x => (key x).isSome := by
  induction items with
  | nil =>
      simp
  | cons x items ih =>
      have hrest := ih fun y hy => hall y (List.mem_cons_of_mem _ hy)
      simp only [List.countP_cons, Finset.sum_add_distrib, hrest]
      cases hx : key x with
      | none =>
          simp
      | some b =>
          -- The item counts once, under its own key.
          have hb := hall x List.mem_cons_self b hx
          simp [hb]

/-- Every pair is of one letter. -/
theorem sum_used (h : Common xs ys pairs) (letters : Finset α) (hall : ∀ a ∈ xs, a ∈ letters) :
    ∑ a ∈ letters, used xs pairs a = pairs.length := by
  have hkeys : ∀ p ∈ pairs, ∀ a, xs[p.1]? = some a → a ∈ letters := fun p _ a ha =>
    hall a (List.mem_of_getElem? ha)
  have hsum := sum_countP (fun p : Nat × Nat => xs[p.1]?) pairs letters hkeys
  refine hsum.trans (List.countP_eq_length.2 fun p hp => ?_)
  obtain ⟨a, hx, -⟩ := h.same p hp
  rw [hx, Option.isSome_some]

end Counting

end Lcs
end Lib
end Aivcs
