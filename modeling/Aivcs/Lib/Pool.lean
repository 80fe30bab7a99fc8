import Aivcs.Lib.Run
import Mathlib.Logic.Relation
import Mathlib.Algebra.GroupWithZero.Nat

/-!
# Pool — tasks that take turns on a shared state

A pool is a list of local states, one for each task, and a state they share.  `turn i t s` is what the
`i`-th task does next, `none` when it waits or has ended; a schedule is a list of task numbers, and a turn
that cannot be taken passes.

* `exists_after_of_turns` — what one task does alone is a run of the pool;
* `holds_after` — an invariant of the shared state and an assertion for each task hold along every schedule
  when a turn keeps the invariant, brings the task from its assertion to the next one and leaves the
  assertions of the others alone;
* `holdsApart_after` — the same with an assertion for each two tasks;
* `after_conserves` — what each turn moves between the shared state and the task keeps its total;
* `length_le_turnsLeft`, `exists_finished` — when each turn leaves the task fewer turns, a run ends, and it
  ends where the pool wants it to if a turn can be taken everywhere else;
* `ended_of_count` — when moreover a task that has not ended can always take its turn, it ends by its own
  turns, whatever the others do.
-/

namespace Aivcs
namespace Lib

structure Pool (τ σ : Type) where
  tasks : List τ
  shared : σ

namespace Pool

variable {τ σ : Type} (turn : Nat → τ → σ → Option (τ × σ))

/-- A task that cannot take its turn lets it pass. -/
def step (p : Pool τ σ) (i : Nat) : Pool τ σ :=
  match p.tasks[i]? with
  | none => p
  | some t =>
      match turn i t p.shared with
      | none => p
      | some (t', s) => ⟨p.tasks.set i t', s⟩

/-- The `i`-th task can take a turn. -/
def CanStep (p : Pool τ σ) (i : Nat) : Prop :=
  ∃ t r, p.tasks[i]? = some t ∧ turn i t p.shared = some r

variable {turn} {p : Pool τ σ} {i : Nat}

theorem step_of_turn {t t' : τ} {s : σ} (ht : p.tasks[i]? = some t)
    (hturn : turn i t p.shared = some (t', s)) : p.step turn i = ⟨p.tasks.set i t', s⟩ := by
  simp only [step, ht, hturn]

variable (turn) in
/-- Either the turn passes, or the task takes it. -/
theorem step_cases (p : Pool τ σ) (i : Nat) :
    (¬ p.CanStep turn i ∧ p.step turn i = p) ∨
    ∃ t t' s, p.tasks[i]? = some t ∧ turn i t p.shared = some (t', s) ∧
      p.step turn i = ⟨p.tasks.set i t', s⟩ := by
  cases ht : p.tasks[i]? with
  | none =>
      refine Or.inl ⟨?_, by simp only [step, ht]⟩
      rintro ⟨t, r, ht', _⟩
      rw [ht] at ht'
      cases ht'
  | some t =>
      cases hturn : turn i t p.shared with
      | none =>
          refine Or.inl ⟨?_, by simp only [step, ht, hturn]⟩
          rintro ⟨u, r, hu, hr⟩
          obtain rfl : t = u := Option.some.inj (ht.symm.trans hu)
          rw [hturn] at hr
          cases hr
      | some r =>
          exact Or.inr ⟨t, r.1, r.2, rfl, hturn, step_of_turn ht hturn⟩

theorem length_tasks_step : (p.step turn i).tasks.length = p.tasks.length := by
  rcases step_cases turn p i with ⟨_, hsame⟩ | ⟨t, t', s, _, _, hstep⟩
  · rw [hsame]
  · rw [hstep]
    exact List.length_set

theorem length_tasks_after (schedule : List Nat) :
    (after (step turn) p schedule).tasks.length = p.tasks.length := by
  induction schedule generalizing p with
  | nil =>
      rfl
  | cons i schedule ih =>
      exact ih.trans length_tasks_step

/-- What one task can do by taking turn after turn, it can do in the pool. -/
theorem exists_after_of_turns {t : τ} {last : τ × σ} (ht : p.tasks[i]? = some t)
    (h : Relation.ReflTransGen (fun x y => turn i x.1 x.2 = some y) (t, p.shared) last) :
    ∃ schedule, after (step turn) p schedule = ⟨p.tasks.set i last.1, last.2⟩ := by
  obtain ⟨hi, hget⟩ := List.getElem?_eq_some_iff.1 ht
  induction h with
  | refl =>
      refine ⟨[], ?_⟩
      rw [← hget, List.set_getElem_self]
      rfl
  | @tail mid last _ hturn ih =>
      obtain ⟨schedule, hschedule⟩ := ih
      refine ⟨schedule ++ [i], ?_⟩
      have hmid : (p.tasks.set i mid.1)[i]? = some mid.1 := List.getElem?_set_self hi
      rw [after_append, hschedule, after_cons, after_nil, step_of_turn hmid hturn, List.set_set]

/-- A task that takes no turn any more stays where it is. -/
theorem stays_of_turn_eq_none {t : τ} (hnone : ∀ s, turn i t s = none) (ht : p.tasks[i]? = some t)
    (schedule : List Nat) : (after (step turn) p schedule).tasks[i]? = some t := by
  induction schedule generalizing p with
  | nil =>
      exact ht
  | cons j schedule ih =>
      rw [after_cons]
      apply ih
      rcases step_cases turn p j with ⟨_, hsame⟩ | ⟨u, u', s, hu, hturn, hstep⟩
      · rw [hsame, ht]
      · by_cases hj : j = i
        · subst hj
          obtain rfl : t = u := Option.some.inj (ht.symm.trans hu)
          rw [hnone] at hturn
          cases hturn
        · rw [hstep, List.getElem?_set_ne hj, ht]

/-! ## Assertions for each task -/

section Assertions

variable {I : σ → Prop} {L : Nat → τ → σ → Prop}

/-- The shared state satisfies `I`, and each task what is asserted where it stands. -/
structure Holds (I : σ → Prop) (L : Nat → τ → σ → Prop) (p : Pool τ σ) : Prop where
  shared : I p.shared
  task : ∀ i t, p.tasks[i]? = some t → L i t p.shared

variable (hturn : ∀ i t s t' s', I s → L i t s → turn i t s = some (t', s') →
  I s' ∧ L i t' s' ∧ ∀ j u, j ≠ i → L j u s → L j u s')
include hturn

theorem holds_step (h : Holds I L p) (i : Nat) : Holds I L (p.step turn i) := by
  rcases step_cases turn p i with ⟨_, hsame⟩ | ⟨t, t', s, ht, hs, hstep⟩
  · rw [hsame]
    exact h
  · rcases hturn i t p.shared t' s h.shared (h.task i t ht) hs with ⟨hI, hown, hothers⟩
    rw [hstep]
    refine ⟨hI, ?_⟩
    intro j u hu
    -- Only the task whose turn it was has changed; for the others the shared state has.
    by_cases hj : i = j
    · subst hj
      rw [List.getElem?_set_self (List.getElem?_eq_some_iff.1 ht).1] at hu
      exact Option.some.inj hu ▸ hown
    · rw [List.getElem?_set_ne hj] at hu
      exact hothers j u (Ne.symm hj) (h.task j u hu)

theorem holds_after (h : Holds I L p) (schedule : List Nat) :
    Holds I L (after (step turn) p schedule) :=
  (always_of_step (I := Holds I L) (fun _ i hp => holds_step hturn hp i) h schedule).final

end Assertions

/-! ## Assertions of the tasks about each other -/

section Apart

variable {I : σ → Prop} {L : Nat → τ → σ → Prop} {A : τ → τ → Prop}

/-- The assertions hold, and each two tasks stand to each other as `A` says. -/
structure HoldsApart (I : σ → Prop) (L : Nat → τ → σ → Prop) (A : τ → τ → Prop) (p : Pool τ σ) : Prop
    extends Holds I L p where
  apart : ∀ (i j : Nat) (t u : τ), i ≠ j → p.tasks[i]? = some t → p.tasks[j]? = some u → A t u

variable (hsymm : ∀ t u, A t u → A u t)
  (hown : ∀ i t s t' s', I s → L i t s → turn i t s = some (t', s') → I s' ∧ L i t' s')
  (hothers : ∀ i t s t' s' j u, j ≠ i → I s → L i t s → turn i t s = some (t', s') → L j u s →
    A t u → L j u s' ∧ A t' u)
include hsymm hown hothers

theorem holdsApart_step (h : HoldsApart I L A p) (i : Nat) : HoldsApart I L A (p.step turn i) := by
  rcases step_cases turn p i with ⟨_, hsame⟩ | ⟨t, t', s, ht, hs, hstep⟩
  · rw [hsame]
    exact h
  · have hi := (List.getElem?_eq_some_iff.1 ht).1
    rcases hown i t p.shared t' s h.shared (h.task i t ht) hs with ⟨hI, hL⟩
    -- What a task other than the one that took its turn keeps.
    have hkeep : ∀ j u, i ≠ j → p.tasks[j]? = some u → L j u s ∧ A t' u := fun j u hne hu =>
      hothers i t p.shared t' s j u (Ne.symm hne) h.shared (h.task i t ht) hs (h.task j u hu)
        (h.apart i j t u hne ht hu)
    rw [hstep]
    refine ⟨⟨hI, ?_⟩, ?_⟩
    · intro j u hu
      by_cases hj : i = j
      · subst hj
        rw [List.getElem?_set_self hi] at hu
        exact Option.some.inj hu ▸ hL
      · rw [List.getElem?_set_ne hj] at hu
        exact (hkeep j u hj hu).1
    · intro j k u v hjk hu hv
      by_cases hj : i = j
      · subst hj
        rw [List.getElem?_set_self hi] at hu
        rw [List.getElem?_set_ne hjk] at hv
        exact Option.some.inj hu ▸ (hkeep k v hjk hv).2
      · rw [List.getElem?_set_ne hj] at hu
        by_cases hk : i = k
        · subst hk
          rw [List.getElem?_set_self hi] at hv
          exact hsymm _ _ (Option.some.inj hv ▸ (hkeep j u hj hu).2)
        · rw [List.getElem?_set_ne hk] at hv
          exact h.apart j k u v hjk hu hv

theorem holdsApart_after (h : HoldsApart I L A p) (schedule : List Nat) :
    HoldsApart I L A (after (step turn) p schedule) :=
  (always_of_step (I := HoldsApart I L A)
    (fun _ i hp => holdsApart_step hsymm hown hothers hp i) h schedule).final

end Apart

/-! ## What turns move and what they use up -/

theorem sum_map_set (f : τ → Nat) {l : List τ} {i : Nat} {t : τ} (ht : l[i]? = some t) (t' : τ) :
    ((l.set i t').map f).sum + f t = (l.map f).sum + f t' := by
  induction l generalizing i with
  | nil =>
      cases ht
  | cons a l ih =>
      cases i with
      | zero =>
          obtain rfl : a = t := Option.some.inj ht
          simp only [List.set_cons_zero, List.map_cons, List.sum_cons]
          omega
      | succ i =>
          have hrest := ih (i := i) ht
          simp only [List.set_cons_succ, List.map_cons, List.sum_cons]
          omega

variable (turn) in
/-- What the tasks hold and what is free add up to the same all along. -/
theorem after_conserves (free : σ → Nat) (held : τ → Nat)
    (hturn : ∀ i t s t' s', turn i t s = some (t', s') → free s' + held t' = free s + held t)
    (p : Pool τ σ) (schedule : List Nat) :
    free (after (step turn) p schedule).shared +
        ((after (step turn) p schedule).tasks.map held).sum =
      free p.shared + (p.tasks.map held).sum := by
  induction schedule generalizing p with
  | nil =>
      rfl
  | cons i schedule ih =>
      refine (ih _).trans ?_
      rcases step_cases turn p i with ⟨_, hsame⟩ | ⟨t, t', s, ht, hs, hstep⟩
      · rw [hsame]
      · -- The sum changes by what the one task holds more or less.
        have hmoved := hturn i t p.shared t' s hs
        have hsum := sum_map_set held ht t'
        rw [hstep]
        change free s + ((p.tasks.set i t').map held).sum = _
        omega

section Measure

variable (left : τ → Nat)

/-- The turns the tasks have left. -/
def turnsLeft (p : Pool τ σ) : Nat :=
  (p.tasks.map left).sum

variable {left} (hleft : ∀ i t s t' s', turn i t s = some (t', s') → left t' < left t)
include hleft

theorem turnsLeft_step (h : p.CanStep turn i) : (p.step turn i).turnsLeft left < p.turnsLeft left := by
  rcases step_cases turn p i with ⟨hno, _⟩ | ⟨t, t', s, ht, hs, hstep⟩
  · exact absurd h hno
  · have hless := hleft i t p.shared t' s hs
    have hsum := sum_map_set left ht t'
    rw [hstep]
    change ((p.tasks.set i t').map left).sum < (p.tasks.map left).sum
    omega

/-- A run takes no more turns than there are. -/
theorem length_le_turnsLeft {schedule : List Nat}
    (h : EachStep (step turn) (fun p i => p.CanStep turn i) p schedule) :
    schedule.length ≤ p.turnsLeft left := by
  induction schedule generalizing p with
  | nil =>
      exact Nat.zero_le _
  | cons i schedule ih =>
      rcases eachStep_cons.1 h with ⟨hcan, hrest⟩
      calc schedule.length + 1
          ≤ (p.step turn i).turnsLeft left + 1 := Nat.add_le_add_right (ih hrest) 1
        _ ≤ p.turnsLeft left := turnsLeft_step hleft hcan

/-- A pool in which a task can take a turn as long as it has not finished can be brought to its end. -/
theorem exists_finished {I F : Pool τ σ → Prop} (hstep : ∀ p i, I p → I (p.step turn i))
    (hprogress : ∀ p, I p → ¬ F p → ∃ i, p.CanStep turn i) (h : I p) :
    ∃ schedule, F (after (step turn) p schedule) := by
  induction hn : p.turnsLeft left using Nat.strong_induction_on generalizing p with
  | _ n ih =>
      by_cases hend : F p
      · exact ⟨[], hend⟩
      · obtain ⟨i, hcan⟩ := hprogress p h hend
        have hless := turnsLeft_step hleft hcan
        obtain ⟨schedule, hschedule⟩ := ih _ (hn ▸ hless) (hstep p i h) rfl
        exact ⟨i :: schedule, hschedule⟩

/-- A task that can take a turn until it ends has ended after as many turns as it has left. -/
theorem ended_of_count {ended : τ → Prop} (hcan : ∀ i t s, ¬ ended t → (turn i t s).isSome = true)
    (hended : ∀ i t s, ended t → turn i t s = none) {t : τ} (ht : p.tasks[i]? = some t)
    {schedule : List Nat} (hcount : left t ≤ schedule.count i) :
    ∃ t', (after (step turn) p schedule).tasks[i]? = some t' ∧ ended t' := by
  induction schedule generalizing p t with
  | nil =>
      refine ⟨t, ht, ?_⟩
      by_contra hend
      -- A task with no turn left cannot take one.
      obtain ⟨⟨t', s⟩, hturn⟩ := Option.isSome_iff_exists.1 (hcan i t p.shared hend)
      have hless := hleft i t p.shared t' s hturn
      simp only [List.count_nil] at hcount
      omega
  | cons j schedule ih =>
      rw [after_cons]
      rcases step_cases turn p j with ⟨hno, hsame⟩ | ⟨u, u', s, hu, hturn, hstep⟩
      · rw [hsame]
        by_cases hj : j = i
        · -- Its turn passed, so it has ended; then it stays where it is.
          subst hj
          have hend : ended t := by
            by_contra hend
            obtain ⟨r, hr⟩ := Option.isSome_iff_exists.1 (hcan j t p.shared hend)
            exact hno ⟨t, r, ht, hr⟩
          refine ⟨t, ?_, hend⟩
          exact stays_of_turn_eq_none (fun s => hended j t s hend) ht schedule
        · rw [List.count_cons_of_ne hj] at hcount
          exact ih ht hcount
      · rw [hstep]
        by_cases hj : j = i
        · subst hj
          obtain rfl : t = u := Option.some.inj (ht.symm.trans hu)
          have hless := hleft j t p.shared u' s hturn
          rw [List.count_cons_self] at hcount
          exact ih (p := ⟨p.tasks.set j u', s⟩)
            (List.getElem?_set_self (List.getElem?_eq_some_iff.1 ht).1) (by omega)
        · rw [List.count_cons_of_ne hj] at hcount
          exact ih (p := ⟨p.tasks.set j u', s⟩) (by rw [List.getElem?_set_ne hj, ht]) hcount

end Measure

end Pool

end Lib
end Aivcs
