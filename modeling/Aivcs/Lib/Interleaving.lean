import Mathlib.Data.Finset.Card
import Mathlib.Data.Fintype.Defs
import Mathlib.Logic.Relation
import Aivcs.Lib.Proc

/-!
# Interleaving — many programs on one store

`Interleaving.Step` is one call of one of the programs, made in a store that meets a condition.

For runs we give a rely/guarantee rule.  All programs share one relation `R`, "how the store may
evolve", and `Steps.wp_preserved` is the parallel composition rule for `Proc.Wp`.

Three more rules are about all programs together: `Covered.not_due`, where calls leave something due
that their programs go on to settle, `OneWinner.unique`, where a result must be won and can be won
once, and `Steps.tallied`, where a counter is raised by programs that end with it.
-/

namespace Aivcs
namespace Lib
namespace Interleaving

variable {Op : Type} {Ans : Op → Type} {α σ ι : Type}

/-- A store and the programs running on it. -/
structure Config (Op : Type) (Ans : Op → Type) (α σ ι : Type) where
  store : σ
  procs : ι → Proc Op Ans α

variable (exec : (op : Op) → σ → Ans op × σ)

/-- Let program `i` make its next call; a finished program does nothing. -/
def Config.fire [DecidableEq ι] (c : Config Op Ans α σ ι) (i : ι) : Config Op Ans α σ ι :=
  match c.procs i with
  | .ret _ => c
  | .call op next =>
      { store := (exec op c.store).2
        procs := Function.update c.procs i (next (exec op c.store).1) }

/-- Let the programs make their calls in the order of a schedule. -/
def Config.fireAll [DecidableEq ι] (c : Config Op Ans α σ ι) (schedule : List ι) :
    Config Op Ans α σ ι :=
  schedule.foldl (fun c i => c.fire exec i) c

variable (ok : σ → Op → Prop)

/-- One call of one program, made in a store that meets `ok`. -/
inductive Step [DecidableEq ι] (c : Config Op Ans α σ ι) : Config Op Ans α σ ι → Prop
  | fire (i : ι) (op : Op) (next : Ans op → Proc Op Ans α)
      (hcall : c.procs i = .call op next) (hok : ok c.store op) : Step c (c.fire exec i)

abbrev Steps [DecidableEq ι] : Config Op Ans α σ ι → Config Op Ans α σ ι → Prop :=
  Relation.ReflTransGen (Step exec ok)

variable {exec ok} [DecidableEq ι] {c c' : Config Op Ans α σ ι}

theorem Config.fire_of_call {i : ι} {op : Op} {next : Ans op → Proc Op Ans α}
    (hcall : c.procs i = .call op next) :
    c.fire exec i =
      { store := (exec op c.store).2
        procs := Function.update c.procs i (next (exec op c.store).1) } := by
  simp [Config.fire, hcall]

/-- Every call a schedule leads to is made in a store that meets `ok`. -/
def Config.OkAlong (exec : (op : Op) → σ → Ans op × σ) (ok : σ → Op → Prop) :
    Config Op Ans α σ ι → List ι → Prop
  | _, [] => True
  | c, i :: schedule =>
      (match c.procs i with
        | .ret _ => True
        | .call op _ => ok c.store op) ∧ OkAlong exec ok (c.fire exec i) schedule

instance Config.decidableOkAlong [∀ s op, Decidable (ok s op)] :
    ∀ (schedule : List ι) (c : Config Op Ans α σ ι), Decidable (c.OkAlong exec ok schedule)
  | [], _ => inferInstanceAs (Decidable True)
  | i :: schedule, c =>
      have := decidableOkAlong schedule (c.fire exec i)
      match hp : c.procs i with
      | .ret _ => decidable_of_iff (c.fire exec i |>.OkAlong exec ok schedule) (by
          simp [Config.OkAlong, hp])
      | .call op _ => decidable_of_iff (ok c.store op ∧ (c.fire exec i).OkAlong exec ok schedule)
          (by simp [Config.OkAlong, hp])

theorem Config.okAlong_of_forall (h : ∀ s op, ok s op) :
    ∀ (schedule : List ι) (c : Config Op Ans α σ ι), c.OkAlong exec ok schedule
  | [], _ => trivial
  | i :: schedule, c => by
      refine ⟨?_, okAlong_of_forall h schedule (c.fire exec i)⟩
      cases c.procs i with
      | ret a =>
          trivial
      | call op next =>
          exact h c.store op

/-- A schedule all of whose calls meet the condition is a run under it. -/
theorem Steps.of_okAlong {schedule : List ι} {c : Config Op Ans α σ ι}
    (h : c.OkAlong exec ok schedule) : Steps exec ok c (c.fireAll exec schedule) := by
  induction schedule generalizing c with
  | nil =>
      exact Relation.ReflTransGen.refl
  | cons i schedule ih =>
      rcases h with ⟨hi, hrest⟩
      cases hcall : c.procs i with
      | ret a =>
          have hsame : c.fire exec i = c := by simp [Config.fire, hcall]
          rw [hsame] at hrest
          simpa [Config.fireAll, hsame] using ih hrest
      | call op next =>
          rw [hcall] at hi
          exact Relation.ReflTransGen.head (Step.fire i op next hcall hi) (ih hrest)

/-- A finished program stays finished. -/
theorem Steps.procs_ret {i : ι} {a : α} (h : Steps exec ok c c') (hret : c.procs i = .ret a) :
    c'.procs i = .ret a := by
  induction h with
  | refl =>
      exact hret
  | tail _ hstep ih =>
      cases hstep with
      | fire j op next hcall hok =>
          have hne : i ≠ j := by
            rintro rfl
            rw [ih] at hcall
            cases hcall
          simpa [Config.fire_of_call hcall, Function.update_of_ne hne] using ih

section RelyGuarantee

variable {R : σ → σ → Prop} {Q : ι → α → σ → Prop}

/-- Every program is correct from every store the others may bring about. -/
def AllWp (exec : (op : Op) → σ → Ans op × σ) (ok : σ → Op → Prop) (R : σ → σ → Prop)
    (Q : ι → α → σ → Prop) (c : Config Op Ans α σ ι) : Prop :=
  ∀ i s', R c.store s' → Proc.Wp exec ok R (Q i) (c.procs i) s'

theorem Step.wp_preserved (hrefl : ∀ s, R s s) (htrans : ∀ {a b d}, R a b → R b d → R a d)
    (h : Step exec ok c c') (hall : AllWp exec ok R Q c) :
    R c.store c'.store ∧ AllWp exec ok R Q c' := by
  cases h with
  | fire i op next hcall hok =>
      have hi := hall i c.store (hrefl _)
      rw [hcall] at hi
      rcases hi hok with ⟨hR, hnext⟩
      rw [Config.fire_of_call hcall]
      refine ⟨hR, ?_⟩
      intro j s' hs'
      -- The program that moved is correct from its next state on; the others only see an `R`-step.
      by_cases hj : j = i
      · subst hj
        simpa using hnext s' hs'
      · simpa [Function.update_of_ne hj] using hall j s' (htrans hR hs')

/-- Parallel composition: correct programs stay correct along every run, and the store only evolves
along `R`. -/
theorem Steps.wp_preserved (hrefl : ∀ s, R s s) (htrans : ∀ {a b d}, R a b → R b d → R a d)
    (h : Steps exec ok c c') (hall : AllWp exec ok R Q c) :
    R c.store c'.store ∧ AllWp exec ok R Q c' := by
  induction h with
  | refl =>
      exact ⟨hrefl _, hall⟩
  | tail _ hstep ih =>
      rcases ih with ⟨hR, hmid⟩
      rcases Step.wp_preserved hrefl htrans hstep hmid with ⟨hR', hend⟩
      exact ⟨htrans hR hR', hend⟩

omit [DecidableEq ι] in
/-- The result of a finished program satisfies its postcondition in the current store. -/
theorem AllWp.post_of_ret {i : ι} {a : α} (hrefl : ∀ s, R s s) (hall : AllWp exec ok R Q c)
    (hret : c.procs i = .ret a) : Q i a c.store := by
  have h := hall i c.store (hrefl _)
  rw [hret] at h
  exact h

end RelyGuarantee

/-- What every allowed call preserves holds along every run. -/
theorem Steps.invariant {Inv : σ → Prop} (hinv : ∀ op s, Inv s → ok s op → Inv (exec op s).2)
    (h : Steps exec ok c c') (hc : Inv c.store) : Inv c'.store := by
  induction h with
  | refl =>
      exact hc
  | tail _ hstep ih =>
      cases hstep with
      | fire i op next hcall hok =>
          rw [Config.fire_of_call hcall]
          exact hinv op _ ih hok

section Debts

variable {δ : Type} {owes : (op : Op) → Ans op → δ → Prop} {settles : δ → Op → Prop} {due : σ → δ → Prop}

/-- Every program pays its debts, and whatever is due will be paid by one of them. -/
structure Covered (owes : (op : Op) → Ans op → δ → Prop) (settles : δ → Op → Prop) (due : σ → δ → Prop)
    (c : Config Op Ans α σ ι) : Prop where
  pays : ∀ i, (c.procs i).Pays owes settles
  due : ∀ d, due c.store d → ∃ i, (c.procs i).Makes (settles d)

/-- A call makes nothing due but what its program then owes, and what it pays is not due any more. -/
theorem Step.covered (hdue : ∀ op s d, due (exec op s).2 d → due s d ∧ ¬ settles d op ∨ owes op (exec op s).1 d)
    (h : Step exec ok c c') (hc : Covered owes settles due c) : Covered owes settles due c' := by
  cases h with
  | fire i op next hcall hok =>
      have hi := hc.pays i
      rw [hcall] at hi
      rw [Config.fire_of_call hcall]
      constructor
      · intro j
        by_cases hj : j = i
        · subst hj
          simpa using (hi _).1
        · simpa [Function.update_of_ne hj] using hc.pays j
      · intro d hd
        rcases hdue op c.store d hd with ⟨hold, hunpaid⟩ | howed
        · -- the program that will pay has not done so with this call
          obtain ⟨j, hj⟩ := hc.due d hold
          refine ⟨j, ?_⟩
          by_cases hji : j = i
          · subst hji
            rw [hcall] at hj
            simpa using hj.resolve_left hunpaid _
          · simpa [Function.update_of_ne hji] using hj
        · exact ⟨i, by simpa using (hi _).2 d howed⟩

theorem Steps.covered (hdue : ∀ op s d, due (exec op s).2 d → due s d ∧ ¬ settles d op ∨ owes op (exec op s).1 d)
    (h : Steps exec ok c c') (hc : Covered owes settles due c) : Covered owes settles due c' := by
  induction h with
  | refl =>
      exact hc
  | tail _ hstep ih =>
      exact hstep.covered hdue ih

omit [DecidableEq ι] in
/-- When every program has finished, nothing is due. -/
theorem Covered.not_due (hc : Covered owes settles due c) (hdone : ∀ i, ∃ a, c.procs i = .ret a) (d : δ) :
    ¬ due c.store d := by
  intro hd
  obtain ⟨i, hi⟩ := hc.due d hd
  obtain ⟨a, ha⟩ := hdone i
  rw [ha] at hi
  exact hi

end Debts

section Winner

variable {won : (op : Op) → Ans op → Prop} {taken : σ → Prop} {W : α → Prop}

/-- Until the prize is taken every program has to win it, and from then on every one but the winner. -/
def OneWinner (won : (op : Op) → Ans op → Prop) (taken : σ → Prop) (W : α → Prop)
    (c : Config Op Ans α σ ι) : Prop :=
  (∀ i, (c.procs i).Needs won W) ∨ taken c.store ∧ ∃ i, ∀ j, j ≠ i → (c.procs j).Needs won W

theorem Step.oneWinner (hwon : ∀ op s, won op (exec op s).1 → ¬ taken s ∧ taken (exec op s).2)
    (hstays : ∀ op s, taken s → taken (exec op s).2) (h : Step exec ok c c')
    (hc : OneWinner won taken W c) : OneWinner won taken W c' := by
  cases h with
  | fire i op next hcall hok =>
      rw [Config.fire_of_call hcall]
      -- a program that still has to win stays so, unless it is the one that moves and wins
      have hkeep : ∀ j, (j = i → ¬ won op (exec op c.store).1) → (c.procs j).Needs won W →
          (Function.update c.procs i (next (exec op c.store).1) j).Needs won W := by
        intro j hlost hj
        by_cases hji : j = i
        · subst hji
          rw [hcall] at hj
          simpa using hj _ (hlost rfl)
        · simpa [Function.update_of_ne hji] using hj
      by_cases hwins : won op (exec op c.store).1
      · obtain ⟨hfree, htaken⟩ := hwon op c.store hwins
        have hall := hc.resolve_right fun h => hfree h.1
        exact Or.inr ⟨htaken, i, fun j hj => hkeep j (fun heq => absurd heq hj) (hall j)⟩
      · rcases hc with hall | ⟨htaken, k, hothers⟩
        · exact Or.inl fun j => hkeep j (fun _ => hwins) (hall j)
        · exact Or.inr ⟨hstays op _ htaken, k, fun j hj => hkeep j (fun _ => hwins) (hothers j hj)⟩

theorem Steps.oneWinner (hwon : ∀ op s, won op (exec op s).1 → ¬ taken s ∧ taken (exec op s).2)
    (hstays : ∀ op s, taken s → taken (exec op s).2) (h : Steps exec ok c c')
    (hc : ∀ i, (c.procs i).Needs won W) : OneWinner won taken W c' := by
  induction h with
  | refl =>
      exact Or.inl hc
  | tail _ hstep ih =>
      exact hstep.oneWinner hwon hstays ih

omit [DecidableEq ι] in
/-- Two programs that both return a prize are one. -/
theorem OneWinner.unique (hc : OneWinner won taken W c) {i j : ι} {a b : α} (hi : c.procs i = .ret a)
    (hj : c.procs j = .ret b) (ha : W a) (hb : W b) : i = j := by
  have hnot : ∀ {k : ι} {x : α}, c.procs k = .ret x → W x → ¬ (c.procs k).Needs won W := by
    intro k x hk hx hneeds
    rw [hk] at hneeds
    exact hneeds hx
  rcases hc with hall | ⟨-, k, hothers⟩
  · exact absurd (hall i) (hnot hi ha)
  · have heq : ∀ {l : ι} {x : α}, c.procs l = .ret x → W x → l = k := by
      intro l x hl hx
      by_contra hne
      exact hnot hl hx (hothers l hne)
    rw [heq hi ha, heq hj hb]

end Winner

section Tally

variable {counted : (op : Op) → Ans op → Prop} {P : α → Prop} [DecidablePred P] [Fintype ι] {count : σ → Nat}

/-- The programs that are finished with a result that meets `P`. -/
def Config.ended (P : α → Prop) [DecidablePred P] (c : Config Op Ans α σ ι) : Finset ι :=
  Finset.univ.filter fun i => (c.procs i).Ended P

/-- The counter is no more than the programs that have ended with raising it. -/
structure Tallied (counted : (op : Op) → Ans op → Prop) (P : α → Prop) [DecidablePred P] (count : σ → Nat)
    (c : Config Op Ans α σ ι) : Prop where
  ends : ∀ i, (c.procs i).EndsOn counted P
  count_le : count c.store ≤ (c.ended P).card

theorem Step.tallied (hkept : ∀ op s, ¬ counted op (exec op s).1 → count (exec op s).2 ≤ count s)
    (hraised : ∀ op s, count (exec op s).2 ≤ count s + 1) (h : Step exec ok c c')
    (hc : Tallied counted P count c) : Tallied counted P count c' := by
  cases h with
  | fire i op next hcall hok =>
      have hi := hc.ends i
      rw [hcall] at hi
      have hrunning : i ∉ c.ended P := by
        rw [Config.ended, Finset.mem_filter, hcall]
        exact fun h => h.2
      have hsubset : c.ended P ⊆ (c.fire exec i).ended P := by
        intro j hj
        have hne : j ≠ i := fun heq => hrunning (heq ▸ hj)
        rw [Config.ended, Finset.mem_filter] at hj ⊢
        simpa [Config.fire_of_call hcall, Function.update_of_ne hne] using hj
      constructor
      · intro j
        rw [Config.fire_of_call hcall]
        by_cases hj : j = i
        · subst hj
          simpa using (hi _).2
        · simpa [Function.update_of_ne hj] using hc.ends j
      · by_cases hcounted : counted op (exec op c.store).1
        · -- the program that moves ends with the call
          have hends : i ∈ (c.fire exec i).ended P := by
            rw [Config.ended, Finset.mem_filter, Config.fire_of_call hcall]
            refine ⟨Finset.mem_univ i, ?_⟩
            simpa using (hi _).1 hcounted
          calc count (c.fire exec i).store
              = count (exec op c.store).2 := by rw [Config.fire_of_call hcall]
            _ ≤ count c.store + 1 := hraised op c.store
            _ ≤ (c.ended P).card + 1 := Nat.add_le_add_right hc.count_le 1
            _ = (insert i (c.ended P)).card := (Finset.card_insert_of_notMem hrunning).symm
            _ ≤ ((c.fire exec i).ended P).card :=
                Finset.card_le_card (Finset.insert_subset hends hsubset)
        · calc count (c.fire exec i).store
              = count (exec op c.store).2 := by rw [Config.fire_of_call hcall]
            _ ≤ count c.store := hkept op c.store hcounted
            _ ≤ (c.ended P).card := hc.count_le
            _ ≤ ((c.fire exec i).ended P).card := Finset.card_le_card hsubset

/-- A counter that only calls which end their programs raise, and each by one at most, is no more than the
programs that have ended so. -/
theorem Steps.tallied (hkept : ∀ op s, ¬ counted op (exec op s).1 → count (exec op s).2 ≤ count s)
    (hraised : ∀ op s, count (exec op s).2 ≤ count s + 1) (h : Steps exec ok c c')
    (hc : Tallied counted P count c) : Tallied counted P count c' := by
  induction h with
  | refl =>
      exact hc
  | tail _ hstep ih =>
      exact hstep.tallied hkept hraised ih

end Tally

end Interleaving

end Lib
end Aivcs
