import Mathlib.Data.List.Nodup
import Mathlib.Data.List.Pairwise

/-!
# Latest — the latest event of each key

A list of events, newest first: the first event of a key is its latest, and what comes before it was added
since.

* `latest key [] l` — the latest event of each key, in the order of the list (`mem_latest`,
  `pairwise_latest`);
* `since key l k` — how many events were added since the latest of `k`; a window shows a key exactly when
  these are fewer than it has places (`find?_take_eq_some_iff`).
-/

namespace Aivcs
namespace Lib

variable {α κ : Type} [DecidableEq κ] (key : α → κ)

/-- Without the keys that have been seen. -/
def latest : List κ → List α → List α
  | _, [] => []
  | seen, a :: l => if key a ∈ seen then latest seen l else a :: latest (key a :: seen) l

def since (l : List α) (k : κ) : ℕ :=
  l.findIdx fun a => key a = k

variable {key} {seen : List κ} {l : List α} {a : α} {k : κ} {n : ℕ}

theorem mem_latest :
    a ∈ latest key seen l ↔ key a ∉ seen ∧ l.find? (fun b => key b = key a) = some a := by
  induction l generalizing seen with
  | nil => simp [latest]
  | cons b l ih =>
      unfold latest
      by_cases hkey : key b = key a
      · -- The first of the key is here, so nothing behind it counts.
        rw [List.find?_cons_of_pos (by simpa using hkey)]
        split
        · rename_i hseen
          rw [ih, ← hkey]
          exact iff_of_false (fun h => h.1 hseen) (fun h => h.1 hseen)
        · rename_i hseen
          rw [List.mem_cons, ih, ← hkey]
          have hlater : ¬ (key b ∉ key b :: seen ∧ l.find? (fun c => key c = key b) = some a) :=
            fun h => h.1 List.mem_cons_self
          rw [or_iff_left hlater, and_iff_right hseen, Option.some_inj]
          exact eq_comm
      · have hne : a ≠ b := fun heq => hkey (heq ▸ rfl)
        rw [List.find?_cons_of_neg (by simpa using hkey)]
        split
        · exact ih
        · rw [List.mem_cons, or_iff_right hne, ih, List.mem_cons, not_or]
          exact ⟨fun h => ⟨h.1.2, h.2⟩, fun h => ⟨⟨fun heq => hkey heq.symm, h.1⟩, h.2⟩⟩

theorem since_cons_self (a : α) (l : List α) : since key (a :: l) (key a) = 0 := by
  simp [since, List.findIdx_cons]

theorem since_cons_of_ne (h : key a ≠ k) (l : List α) : since key (a :: l) k = since key l k + 1 := by
  simp [since, List.findIdx_cons, h]

/-- Of two listed events the later comes first. -/
theorem pairwise_latest :
    (latest key seen l).Pairwise fun a b => since key l (key a) < since key l (key b) := by
  induction l generalizing seen with
  | nil => exact List.Pairwise.nil
  | cons c l ih =>
      unfold latest
      split
      · -- An event that is left out still counts as one before the others.
        rename_i hseen
        have hrest : (latest key seen l).Pairwise _ := ih
        refine hrest.imp_of_mem fun {a b} ha hb hab => ?_
        have ha' : key c ≠ key a := fun heq => (mem_latest.1 ha).1 (heq ▸ hseen)
        have hb' : key c ≠ key b := fun heq => (mem_latest.1 hb).1 (heq ▸ hseen)
        rw [since_cons_of_ne ha', since_cons_of_ne hb']
        exact Nat.succ_lt_succ hab
      · have hne : ∀ b ∈ latest key (key c :: seen) l, key c ≠ key b :=
          fun b hb heq => (mem_latest.1 hb).1 (heq ▸ List.mem_cons_self)
        refine List.pairwise_cons.2 ⟨fun b hb => ?_, ?_⟩
        · rw [since_cons_self, since_cons_of_ne (hne b hb)]
          exact Nat.succ_pos _
        · have hrest : (latest key (key c :: seen) l).Pairwise _ := ih
          refine hrest.imp_of_mem fun {a b} ha hb hab => ?_
          rw [since_cons_of_ne (hne a ha), since_cons_of_ne (hne b hb)]
          exact Nat.succ_lt_succ hab

theorem nodup_latest : ((latest key seen l).map key).Nodup := by
  refine List.pairwise_map.2 (pairwise_latest.imp ?_)
  intro a b hab heq
  rw [heq] at hab
  exact Nat.lt_irrefl _ hab

/-- What the newest `n` events show. -/
theorem find?_take_eq_some_iff {p : α → Bool} :
    (l.take n).find? p = some a ↔ l.find? p = some a ∧ l.findIdx p < n := by
  induction l generalizing n with
  | nil => simp
  | cons b l ih =>
      cases n with
      | zero => simp
      | succ n =>
          rw [List.take_succ_cons, List.find?_cons, List.find?_cons, List.findIdx_cons]
          cases p b with
          | true => simp
          | false => simpa using ih

theorem since_take (h : since key l k < n) : since key (l.take n) k = since key l k := by
  rw [since, List.findIdx_take]
  exact Nat.min_eq_right (Nat.le_of_lt h)

/-- Along a list in strict order of `f`, a relation between neighbours is one between any two members. -/
theorem pairwise_iff_of_pairwise_lt {f : α → ℕ} {R : α → α → Prop}
    (h : l.Pairwise fun a b => f a < f b) :
    l.Pairwise R ↔ ∀ a ∈ l, ∀ b ∈ l, f a < f b → R a b := by
  constructor
  · intro hR
    induction l with
    | nil => exact List.forall_mem_nil _
    | cons c l ih =>
        rw [List.pairwise_cons] at h hR
        intro a ha b hb hab
        rcases List.mem_cons.1 ha with ha | ha
        · rcases List.mem_cons.1 hb with hb | hb
          · rw [ha, hb] at hab
            exact absurd hab (Nat.lt_irrefl _)
          · exact ha ▸ hR.1 b hb
        · rcases List.mem_cons.1 hb with hb | hb
          · exact absurd (hb ▸ hab) (Nat.lt_asymm (h.1 a ha))
          · exact ih h.2 hR.2 a ha b hb hab
  · intro hR
    exact h.imp_of_mem fun ha hb hab => hR _ ha _ hb hab

end Lib
end Aivcs
