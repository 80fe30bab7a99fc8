import Mathlib.Order.Basic
import Mathlib.Order.Lattice
import Mathlib.Order.Defs.LinearOrder
import Aivcs.Lib.Splits

/-!
# Register — a value and the write that owns it

Ranked writers write one register after the other.  A write of the value that is held changes nothing;
a write of another value is a disagreement, which goes on record, and takes the register over if its
rank is strictly better.

* `owner_best` — the owner has the best rank among the writes that contested the register, the earliest
  of them where ranks are equal;
* `disagreements_ne_nil` — a disagreement is on record when two writes gave different values.
-/

namespace Aivcs
namespace Lib

structure Register (W : Type) where
  owner : Option W
  disagreements : List (W × W)

namespace Register

variable {W V P : Type} [DecidableEq V] [LinearOrder P] (value : W → V) (rank : W → P)

def empty : Register W :=
  { owner := none, disagreements := [] }

def write (r : Register W) (w : W) : Register W :=
  match r.owner with
  | none => { r with owner := some w }
  | some h =>
      if value h = value w then
        r
      else
        { owner := if rank w < rank h then some w else some h
          disagreements := r.disagreements ++ [(h, w)] }

def run (ws : List W) : Register W :=
  ws.foldl (write value rank) empty

/-- After the writes `before`, the write `w` finds nothing, or another value. -/
def Contests (before : List W) (w : W) : Prop :=
  (run value rank before).owner.map value ≠ some (value w)

/-- One of the writes contested the register when its turn came. -/
def Contesting (ws : List W) (w : W) : Prop :=
  ∃ pre post, ws = pre ++ w :: post ∧ Contests value rank pre w

variable {value rank} {ws : List W} {w x : W}

@[simp] theorem run_nil : run value rank ([] : List W) = empty := rfl

theorem run_concat : run value rank (ws ++ [w]) = (run value rank ws).write value rank w := by
  rw [run, List.foldl_append]
  rfl

/-! ## One write -/

theorem write_of_none {r : Register W} (h : r.owner = none) :
    r.write value rank w = { r with owner := some w } := by
  rw [write, h]

theorem write_of_eq {r : Register W} {h : W} (howner : r.owner = some h) (heq : value h = value w) :
    r.write value rank w = r := by
  rw [write, howner]
  exact if_pos heq

theorem write_of_ne {r : Register W} {h : W} (howner : r.owner = some h) (hne : value h ≠ value w) :
    r.write value rank w =
      { owner := if rank w < rank h then some w else some h
        disagreements := r.disagreements ++ [(h, w)] } := by
  rw [write, howner]
  exact if_neg hne

/-- The three things a write can do. -/
theorem write_cases (value : W → V) (rank : W → P) (r : Register W) (w : W) :
    (r.owner = none ∧ r.write value rank w = { r with owner := some w }) ∨
    (∃ h, r.owner = some h ∧ value h = value w ∧ r.write value rank w = r) ∨
    (∃ h, r.owner = some h ∧ value h ≠ value w ∧
      r.write value rank w =
        { owner := if rank w < rank h then some w else some h
          disagreements := r.disagreements ++ [(h, w)] }) := by
  cases howner : r.owner with
  | none =>
      exact Or.inl ⟨rfl, write_of_none howner⟩
  | some h =>
      by_cases heq : value h = value w
      · exact Or.inr (Or.inl ⟨h, rfl, heq, write_of_eq howner heq⟩)
      · exact Or.inr (Or.inr ⟨h, rfl, heq, write_of_ne howner heq⟩)

/-! ## The owner -/

theorem owner_mem (h : (run value rank ws).owner = some w) : w ∈ ws := by
  induction ws using List.reverseRecOn with
  | nil =>
      cases h
  | append_singleton ws x ih =>
      rw [run_concat] at h
      rw [List.mem_append, List.mem_singleton]
      rcases write_cases value rank (run value rank ws) x with
        ⟨_, hwrite⟩ | ⟨_, _, _, hwrite⟩ | ⟨o, howner, _, hwrite⟩
      · rw [hwrite] at h
        exact Or.inr (Option.some.inj h).symm
      · rw [hwrite] at h
        exact Or.inl (ih h)
      · rw [hwrite] at h
        by_cases hlt : rank x < rank o
        · simp only [if_pos hlt] at h
          exact Or.inr (Option.some.inj h).symm
        · simp only [if_neg hlt] at h
          exact Or.inl (ih (howner.trans h))

theorem owner_eq_none : (run value rank ws).owner = none ↔ ws = [] := by
  constructor
  · induction ws using List.reverseRecOn with
    | nil =>
        exact fun _ => rfl
    | append_singleton ws x _ =>
        intro h
        rw [run_concat] at h
        rcases write_cases value rank (run value rank ws) x with
          ⟨_, hwrite⟩ | ⟨o, howner, _, hwrite⟩ | ⟨o, _, _, hwrite⟩
        · rw [hwrite] at h
          cases h
        · rw [hwrite, howner] at h
          cases h
        · rw [hwrite] at h
          by_cases hlt : rank x < rank o
          · simp only [if_pos hlt] at h
            cases h
          · simp only [if_neg hlt] at h
            cases h
  · rintro rfl
    rfl

/-- The last write contested the register, or another one did. -/
theorem contesting_concat :
    Contesting value rank (ws ++ [x]) w ↔
      Contesting value rank ws w ∨ (w = x ∧ Contests value rank ws x) := by
  constructor
  · rintro ⟨pre, post, heq, hcontests⟩
    rcases concat_eq_append_cons.1 heq with ⟨post', _, hws⟩ | ⟨_, rfl, rfl⟩
    · exact Or.inl ⟨pre, post', hws, hcontests⟩
    · exact Or.inr ⟨rfl, hcontests⟩
  · rintro (⟨pre, post, rfl, hcontests⟩ | ⟨rfl, hcontests⟩)
    · exact ⟨pre, post ++ [x], by simp, hcontests⟩
    · exact ⟨ws, [], rfl, hcontests⟩

theorem Contesting.mem (h : Contesting value rank ws w) : w ∈ ws := by
  obtain ⟨pre, post, rfl, _⟩ := h
  simp

/-- The owner contested the register, and every other write that did has a worse rank, or the same one
and came later. -/
theorem owner_best {earlier : W → W → Prop} (hsorted : ws.Pairwise earlier)
    (h : (run value rank ws).owner = some w) :
    Contesting value rank ws w ∧
      ∀ x, Contesting value rank ws x → x = w ∨ rank w < rank x ∨ (rank w = rank x ∧ earlier w x) := by
  induction ws using List.reverseRecOn generalizing w with
  | nil =>
      cases h
  | append_singleton ws y ih =>
      have hearlier : ∀ a ∈ ws, earlier a y := fun a ha =>
        (List.pairwise_append.1 hsorted).2.2 a ha y (List.mem_singleton.2 rfl)
      have hws : ws.Pairwise earlier := (List.pairwise_append.1 hsorted).1
      rw [run_concat] at h
      rcases write_cases value rank (run value rank ws) y with
        ⟨hnone, hwrite⟩ | ⟨o, howner, heq, hwrite⟩ | ⟨o, howner, hne, hwrite⟩
      · -- The first write of all.
        obtain rfl : ws = [] := owner_eq_none.1 hnone
        rw [hwrite] at h
        obtain rfl : y = w := Option.some.inj h
        refine ⟨⟨[], [], rfl, Option.some_ne_none _ ∘ Eq.symm⟩, ?_⟩
        intro x hx
        exact Or.inl (List.mem_singleton.1 hx.mem)
      · -- A write of the value that is held contests nothing.
        rw [hwrite] at h
        obtain ⟨hw, hbest⟩ := ih hws h
        refine ⟨contesting_concat.2 (Or.inl hw), ?_⟩
        intro x hx
        rcases contesting_concat.1 hx with hx | ⟨_, hcontests⟩
        · exact hbest x hx
        · exact absurd (by rw [howner, Option.map_some, heq]) hcontests
      · have hcontests : Contests value rank ws y := by
          intro hheld
          rw [howner, Option.map_some] at hheld
          exact hne (Option.some.inj hheld)
        obtain ⟨ho, hbest⟩ := ih hws howner
        rw [hwrite] at h
        by_cases hlt : rank y < rank o
        · -- A better rank than the owner's is better than that of all before it.
          simp only [if_pos hlt] at h
          obtain rfl : y = w := Option.some.inj h
          refine ⟨contesting_concat.2 (Or.inr ⟨rfl, hcontests⟩), ?_⟩
          intro x hx
          rcases contesting_concat.1 hx with hx | ⟨rfl, _⟩
          · rcases hbest x hx with rfl | hox | ⟨hox, _⟩
            · exact Or.inr (Or.inl hlt)
            · exact Or.inr (Or.inl (hlt.trans hox))
            · exact Or.inr (Or.inl (hox ▸ hlt))
          · exact Or.inl rfl
        · simp only [if_neg hlt] at h
          obtain rfl : o = w := Option.some.inj h
          refine ⟨contesting_concat.2 (Or.inl ho), ?_⟩
          intro x hx
          rcases contesting_concat.1 hx with hx | ⟨rfl, _⟩
          · exact hbest x hx
          · have hlate : earlier o x := hearlier o (owner_mem howner)
            exact Or.inr ((not_lt.1 hlt).lt_or_eq.imp_right fun heq => ⟨heq, hlate⟩)

/-! ## The disagreements on record -/

/-- While nothing is on record, every write gave the value that is held. -/
theorem value_eq_of_disagreements_nil (h : (run value rank ws).disagreements = []) :
    ∀ x ∈ ws, (run value rank ws).owner.map value = some (value x) := by
  induction ws using List.reverseRecOn with
  | nil =>
      exact fun x hx => absurd hx List.not_mem_nil
  | append_singleton ws y ih =>
      intro x hx
      rw [run_concat] at h ⊢
      rw [List.mem_append, List.mem_singleton] at hx
      rcases write_cases value rank (run value rank ws) y with
        ⟨hnone, hwrite⟩ | ⟨o, howner, heq, hwrite⟩ | ⟨o, _, _, hwrite⟩
      · obtain rfl : ws = [] := owner_eq_none.1 hnone
        rcases hx with hx | rfl
        · exact absurd hx List.not_mem_nil
        · rw [hwrite]
          rfl
      · rw [hwrite] at h ⊢
        rcases hx with hx | rfl
        · exact ih h x hx
        · rw [howner, Option.map_some, heq]
      · rw [hwrite] at h
        exact absurd h (by simp)

/-- What is on record are two writes of different values. -/
theorem mem_disagreements {p : W × W} (h : p ∈ (run value rank ws).disagreements) :
    p.1 ∈ ws ∧ p.2 ∈ ws ∧ value p.1 ≠ value p.2 := by
  induction ws using List.reverseRecOn with
  | nil =>
      exact absurd h List.not_mem_nil
  | append_singleton ws y ih =>
      have hold (h : p ∈ (run value rank ws).disagreements) :
          p.1 ∈ ws ++ [y] ∧ p.2 ∈ ws ++ [y] ∧ value p.1 ≠ value p.2 := by
        obtain ⟨h1, h2, hne⟩ := ih h
        exact ⟨List.mem_append_left _ h1, List.mem_append_left _ h2, hne⟩
      rw [run_concat] at h
      rcases write_cases value rank (run value rank ws) y with
        ⟨_, hwrite⟩ | ⟨_, _, _, hwrite⟩ | ⟨o, howner, hne, hwrite⟩
      · rw [hwrite] at h
        exact hold h
      · rw [hwrite] at h
        exact hold h
      · rw [hwrite] at h
        rcases List.mem_append.1 h with h | h
        · exact hold h
        · obtain rfl := List.mem_singleton.1 h
          exact ⟨List.mem_append_left _ (owner_mem howner), by simp, hne⟩

theorem disagreements_ne_nil :
    (run value rank ws).disagreements ≠ [] ↔ ∃ x ∈ ws, ∃ y ∈ ws, value x ≠ value y := by
  constructor
  · intro h
    obtain ⟨p, hp⟩ := List.exists_mem_of_ne_nil _ h
    obtain ⟨h1, h2, hne⟩ := mem_disagreements hp
    exact ⟨p.1, h1, p.2, h2, hne⟩
  · rintro ⟨x, hx, y, hy, hne⟩ hnil
    have hheld := value_eq_of_disagreements_nil hnil
    exact hne (Option.some.inj ((hheld x hx).symm.trans (hheld y hy)))

end Register

end Lib
end Aivcs
