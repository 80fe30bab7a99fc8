import Mathlib.Data.List.Infix

/-!
# Run — invariants along runs of a deterministic machine

`after step s l` is the state after the inputs `l`.  `Always` quantifies over every state reached
along a run, `EachStep` over every step of it together with the state the step was taken in.

The rules are the ones used for "for every sequence of requests":

* `always_of_eachStep` — an invariant that each step with `P` preserves holds all along;
* `always_iff_eachStep` — when `P` says exactly which steps preserve the invariant, the invariant
  holds all along the run if and only if every step has `P`;
* `eachStep_congr` — when a property of a step amounts to `P` wherever the invariant holds, every step
  of the run has it if and only if every step has `P`;
* `evolves_of_eachStep` — when each such step is moreover an `R`-step, any two states of the run
  are related by `R`, the earlier to the later;
* `evolves_iff_eachStep` — when the `R`-steps are exactly the steps with `P`, a run evolves along `R`
  if and only if every step of it has `P`.
-/

namespace Aivcs
namespace Lib

variable {σ ι : Type} (step : σ → ι → σ)

/-- The state after the inputs `l`. -/
def after (s : σ) (l : List ι) : σ :=
  l.foldl step s

/-- `I` holds in every state reached along the run. -/
def Always (I : σ → Prop) (s : σ) (l : List ι) : Prop :=
  ∀ pre, pre <+: l → I (after step s pre)

/-- `P` holds of every step of the run, in the state the step is taken in. -/
def EachStep (P : σ → ι → Prop) (s : σ) (l : List ι) : Prop :=
  ∀ pre i, pre ++ [i] <+: l → P (after step s pre) i

/-- `R` relates every state of the run to every later one. -/
def Evolves (R : σ → σ → Prop) (s : σ) (l : List ι) : Prop :=
  ∀ pre pre', pre <+: pre' → pre' <+: l → R (after step s pre) (after step s pre')

variable {step} {I : σ → Prop} {P : σ → ι → Prop} {s : σ} {i : ι} {l : List ι}

@[simp] theorem after_nil : after step s [] = s := rfl

@[simp] theorem after_cons : after step s (i :: l) = after step (step s i) l := rfl

theorem after_append (l l' : List ι) : after step s (l ++ l') = after step (after step s l) l' :=
  List.foldl_append

theorem always_nil : Always step I s [] ↔ I s := by
  constructor
  · intro h
    exact h [] List.prefix_rfl
  · intro h pre hpre
    simpa [List.prefix_nil.1 hpre] using h

theorem always_cons : Always step I s (i :: l) ↔ I s ∧ Always step I (step s i) l := by
  constructor
  · intro h
    refine ⟨h [] (List.nil_prefix), ?_⟩
    intro pre hpre
    exact h (i :: pre) (List.cons_prefix_cons.2 ⟨rfl, hpre⟩)
  · rintro ⟨hs, h⟩ pre hpre
    cases pre with
    | nil =>
        exact hs
    | cons j pre =>
        rcases List.cons_prefix_cons.1 hpre with ⟨rfl, hpre'⟩
        exact h pre hpre'

theorem eachStep_nil : EachStep step P s [] := by
  intro pre i hpre
  simp at hpre

theorem eachStep_cons : EachStep step P s (i :: l) ↔ P s i ∧ EachStep step P (step s i) l := by
  constructor
  · intro h
    refine ⟨h [] i (by simp), ?_⟩
    intro pre j hpre
    exact h (i :: pre) j (List.cons_prefix_cons.2 ⟨rfl, hpre⟩)
  · rintro ⟨hs, h⟩ pre j hpre
    cases pre with
    | nil =>
        rcases List.cons_prefix_cons.1 hpre with ⟨rfl, _⟩
        exact hs
    | cons k pre =>
        rcases List.cons_prefix_cons.1 hpre with ⟨rfl, hpre'⟩
        exact h pre j hpre'

instance EachStep.decidable [∀ s i, Decidable (P s i)] :
    ∀ (l : List ι) (s : σ), Decidable (EachStep step P s l)
  | [], _ => isTrue eachStep_nil
  | i :: l, s =>
      have := EachStep.decidable l (step s i)
      decidable_of_iff (P s i ∧ EachStep step P (step s i) l) eachStep_cons.symm

/-- The final state is one of those `Always` speaks about. -/
theorem Always.final (h : Always step I s l) : I (after step s l) :=
  h l List.prefix_rfl

/-- An invariant preserved by every step with `P` holds along every run of such steps. -/
theorem always_of_eachStep (hstep : ∀ s i, I s → P s i → I (step s i)) (hs : I s)
    (h : EachStep step P s l) : Always step I s l := by
  induction l generalizing s with
  | nil =>
      exact always_nil.2 hs
  | cons i l ih =>
      rcases eachStep_cons.1 h with ⟨hP, hrest⟩
      exact always_cons.2 ⟨hs, ih (hstep s i hs hP) hrest⟩

/-- An invariant preserved by every step holds along every run. -/
theorem always_of_step (hstep : ∀ s i, I s → I (step s i)) (hs : I s) (l : List ι) :
    Always step I s l :=
  always_of_eachStep (P := fun _ _ => True) (fun s i hI _ => hstep s i hI) hs (fun _ _ _ => trivial)

/-- When `P` says exactly which steps of the run preserve the invariant, it does so for the whole
run. -/
theorem always_iff_eachStep (hstep : ∀ s, ∀ i ∈ l, I s → (I (step s i) ↔ P s i)) (hs : I s) :
    Always step I s l ↔ EachStep step P s l := by
  induction l generalizing s with
  | nil =>
      exact iff_of_true (always_nil.2 hs) eachStep_nil
  | cons i l ih =>
      have hhead := hstep s i List.mem_cons_self hs
      have htail := fun s j hj => hstep s j (List.mem_cons_of_mem i hj)
      rw [always_cons, eachStep_cons]
      constructor
      · rintro ⟨_, hrest⟩
        -- The invariant after the step is the first state of the rest of the run.
        have hI : I (step s i) := hrest [] (List.nil_prefix)
        exact ⟨hhead.1 hI, (ih htail hI).1 hrest⟩
      · rintro ⟨hP, hrest⟩
        have hI : I (step s i) := hhead.2 hP
        exact ⟨hs, (ih htail hI).2 hrest⟩

/-- Two properties of the steps of a run that agree wherever the invariant holds, one of which preserves
it, hold along the same runs; `F` is what is known of every step beforehand. -/
theorem eachStep_congr_of_eachStep {F Q : σ → ι → Prop} (hF : EachStep step F s l)
    (hiff : ∀ s i, I s → F s i → (Q s i ↔ P s i))
    (hstep : ∀ s i, I s → F s i → P s i → I (step s i)) (hs : I s) :
    EachStep step Q s l ↔ EachStep step P s l := by
  induction l generalizing s with
  | nil =>
      exact iff_of_true eachStep_nil eachStep_nil
  | cons i l ih =>
      rcases eachStep_cons.1 hF with ⟨hFi, hFrest⟩
      rw [eachStep_cons, eachStep_cons]
      constructor
      · rintro ⟨hQ, hrest⟩
        have hP := (hiff s i hs hFi).1 hQ
        exact ⟨hP, (ih hFrest (hstep s i hs hFi hP)).1 hrest⟩
      · rintro ⟨hP, hrest⟩
        exact ⟨(hiff s i hs hFi).2 hP, (ih hFrest (hstep s i hs hFi hP)).2 hrest⟩

theorem eachStep_congr {Q : σ → ι → Prop} (hiff : ∀ s i, I s → (Q s i ↔ P s i))
    (hstep : ∀ s i, I s → P s i → I (step s i)) (hs : I s) :
    EachStep step Q s l ↔ EachStep step P s l :=
  eachStep_congr_of_eachStep (F := fun _ _ => True) (fun _ _ _ => trivial)
    (fun s i h _ => hiff s i h) (fun s i h _ => hstep s i h) hs

/-- Steps that preserve an invariant and are `R`-steps under it make a run that evolves along
`R`. -/
theorem evolves_of_eachStep {R : σ → σ → Prop} (hrefl : ∀ s, R s s)
    (htrans : ∀ {a b c}, R a b → R b c → R a c)
    (hstep : ∀ s i, I s → P s i → I (step s i) ∧ R s (step s i)) (hs : I s)
    (h : EachStep step P s l) : Evolves step R s l := by
  induction l generalizing s with
  | nil =>
      intro pre pre' hpre hpre'
      have hnil' := List.prefix_nil.1 hpre'
      subst hnil'
      rw [List.prefix_nil.1 hpre]
      exact hrefl _
  | cons i l ih =>
      rcases eachStep_cons.1 h with ⟨hP, hrest⟩
      rcases hstep s i hs hP with ⟨hI, hR⟩
      -- Either the earlier state is the first one, or both states are in the rest of the run.
      have hev := ih hI hrest
      intro pre pre' hpre hpre'
      cases pre' with
      | nil =>
          rw [List.prefix_nil.1 hpre]
          exact hrefl _
      | cons j pre' =>
          rcases List.cons_prefix_cons.1 hpre' with ⟨rfl, htail'⟩
          cases pre with
          | nil =>
              exact htrans hR (hev [] pre' List.nil_prefix htail')
          | cons k pre =>
              rcases List.cons_prefix_cons.1 hpre with ⟨rfl, htail⟩
              exact hev pre pre' htail htail'

/-- When `P` says exactly which steps are `R`-steps, it says which runs evolve along `R`. -/
theorem evolves_iff_eachStep {R : σ → σ → Prop} (hrefl : ∀ s, R s s)
    (htrans : ∀ {a b c}, R a b → R b c → R a c) (hstep : ∀ s i, R s (step s i) ↔ P s i) :
    Evolves step R s l ↔ EachStep step P s l := by
  constructor
  · intro h pre i hpre
    have hR := h pre (pre ++ [i]) (List.prefix_append pre [i]) hpre
    rw [after_append] at hR
    exact (hstep _ i).1 hR
  · intro h
    exact evolves_of_eachStep (I := fun _ => True) hrefl htrans
      (fun s i _ hP => ⟨trivial, (hstep s i).2 hP⟩) trivial h

end Lib
end Aivcs
