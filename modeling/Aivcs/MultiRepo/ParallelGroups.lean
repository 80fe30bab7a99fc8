import Aivcs.MultiRepo.Graph

/-!
# MultiRepo.ParallelGroups — the groups of a plan are its levels

`parallel_groups` goes through the steps with one group open.  Where the steps come level by level
(`Leveled`), the groups are cut where the level changes: a step of a new level depends on one of the
level before, which sits whole in the open group (`Grouping.Inv.add`).
-/

namespace Aivcs
namespace MultiRepo

/-! ## Levels -/

/-- What the grouping relies on: steps come level by level, a step can run in parallel exactly when
its level has another step, its dependencies lie on lower levels, and one of them on the level just
below. -/
structure Leveled (level : String → Nat) (steps : List RepoStep) : Prop where
  nodup : (steps.map fun s => s.repo.repoId).Nodup
  sorted : steps.Pairwise fun s t => level s.repo.repoId ≤ level t.repo.repoId
  parallelizable_iff : ∀ s ∈ steps, s.parallelizable = true ↔
    ∃ t ∈ steps, t.repo.repoId ≠ s.repo.repoId ∧ level t.repo.repoId = level s.repo.repoId
  dep_lt : ∀ s ∈ steps, ∀ d ∈ s.dependsOn, level d < level s.repo.repoId
  dep_below : ∀ s ∈ steps, ∀ n, level s.repo.repoId = n + 1 →
    ∃ t ∈ steps, t.repo.repoId ∈ s.dependsOn ∧ level t.repo.repoId = n

namespace Leveled

variable {level : String → Nat} {pre rest : List RepoStep} {step : RepoStep}
  (h : Leveled level (pre ++ step :: rest))

include h

theorem le_step {s : RepoStep} (hs : s ∈ pre) : level s.repo.repoId ≤ level step.repo.repoId :=
  (List.pairwise_append.mp h.sorted).2.2 s hs step List.mem_cons_self

theorem le_getLast {s last : RepoStep} (hs : s ∈ pre) (hlast : pre.getLast? = some last) :
    level s.repo.repoId ≤ level last.repo.repoId := by
  obtain ⟨init, rfl⟩ := List.getLast?_eq_some_iff.mp hlast
  have hsorted := (List.pairwise_append.mp (List.pairwise_append.mp h.sorted).1).2.2
  rcases List.mem_append.mp hs with hs | hs
  · exact hsorted s hs last (List.mem_singleton_self last)
  · rw [List.mem_singleton.mp hs]

theorem mem_of_lt {t : RepoStep} (ht : t ∈ pre ++ step :: rest)
    (hlt : level t.repo.repoId < level step.repo.repoId) : t ∈ pre := by
  rcases List.mem_append.mp ht with ht | ht
  · exact ht
  · have hsorted := (List.pairwise_append.mp h.sorted).2.1
    rcases List.mem_cons.mp ht with rfl | ht
    · exact absurd hlt (Nat.lt_irrefl _)
    · have hle := (List.pairwise_cons.mp hsorted).1 t ht
      omega

/-- Two steps on one level are both parallelizable. -/
theorem parallelizable_of_eq {s : RepoStep} (hs : s ∈ pre)
    (heq : level s.repo.repoId = level step.repo.repoId) :
    s.parallelizable = true ∧ step.parallelizable = true := by
  have hne : s.repo.repoId ≠ step.repo.repoId := by
    have hnodup := h.nodup
    rw [List.map_append, List.nodup_append] at hnodup
    exact hnodup.2.2 _ (List.mem_map_of_mem hs) _ (by simp)
  have hs' : s ∈ pre ++ step :: rest := List.mem_append_left _ hs
  have hstep : step ∈ pre ++ step :: rest := by simp
  exact ⟨(h.parallelizable_iff s hs').mpr ⟨step, hstep, hne.symm, heq.symm⟩,
    (h.parallelizable_iff step hstep).mpr ⟨s, hs', hne, heq⟩⟩

end Leveled

/-- Every step of the first group is on a lower level than every step of the second. -/
def Below (level : String → Nat) (group group' : List RepoStep) : Prop :=
  ∀ s ∈ group, ∀ t ∈ group', level s.repo.repoId < level t.repo.repoId

/-- All steps of the group are on one level. -/
def Uniform (level : String → Nat) (group : List RepoStep) : Prop :=
  ∀ s ∈ group, ∀ t ∈ group, level s.repo.repoId = level t.repo.repoId

/-- Groups as they are cut so far: each on one level, in increasing order of levels. -/
structure Cut (level : String → Nat) (groups : List (List RepoStep)) : Prop where
  nonempty : ∀ group ∈ groups, group ≠ []
  uniform : ∀ group ∈ groups, Uniform level group
  increasing : groups.Pairwise (Below level)

namespace Cut

variable {level : String → Nat} {groups : List (List RepoStep)} {group : List RepoStep}

theorem nil : Cut level [] := by
  constructor <;> simp

theorem concat (h : Cut level groups) (hne : group ≠ []) (hu : Uniform level group)
    (hb : ∀ s ∈ groups.flatten, ∀ t ∈ group, level s.repo.repoId < level t.repo.repoId) :
    Cut level (groups ++ [group]) := by
  refine ⟨?_, ?_, ?_⟩
  · intro grp hgrp
    rcases List.mem_append.mp hgrp with hgrp | hgrp
    · exact h.nonempty grp hgrp
    · rw [List.mem_singleton.mp hgrp]
      exact hne
  · intro grp hgrp
    rcases List.mem_append.mp hgrp with hgrp | hgrp
    · exact h.uniform grp hgrp
    · rw [List.mem_singleton.mp hgrp]
      exact hu
  · rw [List.pairwise_append]
    refine ⟨h.increasing, List.pairwise_singleton _ _, ?_⟩
    intro grp hgrp grp' hgrp' s hs t ht
    rw [List.mem_singleton.mp hgrp'] at ht
    exact hb s (List.mem_flatten_of_mem hgrp hs) t ht

/-- Of two steps, the one on the lower level is in the earlier group. -/
theorem index_lt (h : Cut level groups) {i j : Nat} {group group' : List RepoStep}
    (hi : groups[i]? = some group) (hj : groups[j]? = some group') {s t : RepoStep} (hs : s ∈ group)
    (ht : t ∈ group') (hlt : level s.repo.repoId < level t.repo.repoId) : i < j := by
  obtain ⟨hi', rfl⟩ := List.getElem?_eq_some_iff.mp hi
  obtain ⟨hj', rfl⟩ := List.getElem?_eq_some_iff.mp hj
  rcases Nat.lt_trichotomy i j with hij | hij | hij
  · exact hij
  · subst hij
    have heq := h.uniform _ (List.getElem_mem hi') s hs t ht
    omega
  · have hgt := List.pairwise_iff_getElem.mp h.increasing j i hj' hi' hij t ht s hs
    omega

end Cut

namespace Grouping

/-- What holds after the loop has taken in the steps `pre`. -/
structure Inv (level : String → Nat) (pre : List RepoStep) (gr : Grouping) : Prop where
  flatten : gr.groups.flatten ++ gr.current = pre
  ids : ∀ id, id ∈ gr.currentIds ↔ ∃ s ∈ gr.current, s.repo.repoId = id
  cut : Cut level gr.groups
  uniform : Uniform level gr.current
  below : ∀ s ∈ gr.groups.flatten, ∀ t ∈ gr.current, level s.repo.repoId < level t.repo.repoId
  single : gr.current = [] → ∀ s ∈ pre.getLast?, s.parallelizable = false

variable {level : String → Nat} {pre : List RepoStep} {gr : Grouping} {step : RepoStep}

/-- Closing the open group. -/
theorem Inv.close (h : gr.Inv level pre) :
    gr.close.groups.flatten = pre ∧ gr.close.current = [] ∧ gr.close.currentIds = ∅ ∧
      Cut level gr.close.groups := by
  unfold Grouping.close
  split
  · next hnil =>
    have hflat := h.flatten
    rw [hnil, List.append_nil] at hflat
    refine ⟨hflat, hnil, ?_, h.cut⟩
    ext id
    simp [h.ids, hnil]
  · next hne =>
    refine ⟨?_, rfl, rfl, h.cut.concat hne h.uniform h.below⟩
    simpa using h.flatten

/-- A step above everything before it opens a group of its own. -/
theorem Inv.open_group {gr' : Grouping} (hflat : gr'.groups.flatten = pre)
    (hcurrent : gr'.current = []) (hids : gr'.currentIds = ∅) (hcut : Cut level gr'.groups)
    (hlt : ∀ s ∈ pre, level s.repo.repoId < level step.repo.repoId) :
    (gr'.push step).Inv level (pre ++ [step]) := by
  refine ⟨?_, ?_, hcut, ?_, ?_, ?_⟩
  · simp [Grouping.push, hcurrent, hflat]
  · intro id
    simp [Grouping.push, hcurrent, hids, eq_comm]
  · intro s hs t ht
    simp only [Grouping.push, hcurrent, List.nil_append, List.mem_singleton] at hs ht
    rw [hs, ht]
  · intro s hs t ht
    simp only [Grouping.push, hcurrent, List.nil_append, List.mem_singleton] at hs ht
    rw [ht]
    exact hlt s (hflat ▸ hs)
  · intro h
    simp [Grouping.push] at h

/-- A step on the level of the open group joins it. -/
theorem Inv.join (h : gr.Inv level pre) {c : RepoStep} (hc : c ∈ gr.current)
    (heq : level step.repo.repoId = level c.repo.repoId) :
    (gr.push step).Inv level (pre ++ [step]) := by
  have hlevel : ∀ s ∈ gr.current ++ [step], level s.repo.repoId = level c.repo.repoId := by
    intro s hs
    rcases List.mem_append.mp hs with hs | hs
    · exact h.uniform s hs c hc
    · rw [List.mem_singleton.mp hs]
      exact heq
  refine ⟨?_, ?_, h.cut, ?_, ?_, ?_⟩
  · simp only [Grouping.push, ← h.flatten, List.append_assoc]
  · intro id
    simp only [Grouping.push, Finset.mem_insert, h.ids, List.mem_append, List.mem_singleton]
    constructor
    · rintro (rfl | ⟨s, hs, rfl⟩)
      · exact ⟨step, Or.inr rfl, rfl⟩
      · exact ⟨s, Or.inl hs, rfl⟩
    · rintro ⟨s, hs | rfl, rfl⟩
      · exact Or.inr ⟨s, hs, rfl⟩
      · exact Or.inl rfl
  · intro s hs t ht
    rw [hlevel s hs, hlevel t ht]
  · intro s hs t ht
    rw [hlevel t ht]
    exact h.below s hs c hc
  · intro hnil
    simp [Grouping.push] at hnil

/-- A step that depends on a member of the open group lies above all before it. -/
theorem Inv.lt_of_dep {rest : List RepoStep} (h : gr.Inv level pre)
    (hlv : Leveled level (pre ++ step :: rest))
    (hdep : (step.dependsOn.any fun d => d ∈ gr.currentIds) = true) {s : RepoStep} (hs : s ∈ pre) :
    level s.repo.repoId < level step.repo.repoId := by
  obtain ⟨d, hd, hmem⟩ := List.any_eq_true.mp hdep
  obtain ⟨c, hc, rfl⟩ := (h.ids d).mp (of_decide_eq_true hmem)
  refine lt_of_le_of_lt ?_ (hlv.dep_lt step (by simp) c.repo.repoId hd)
  rw [← h.flatten, List.mem_append] at hs
  rcases hs with hs | hs
  · exact (h.below s hs c hc).le
  · exact (h.uniform s hs c hc).le

/-- A step that finds no open group lies above all before it: the step before stands alone, and would
not if this one were on its level. -/
theorem Inv.lt_of_current_nil {rest : List RepoStep} (h : gr.Inv level pre)
    (hlv : Leveled level (pre ++ step :: rest)) (hcur : gr.current = []) {s : RepoStep}
    (hs : s ∈ pre) : level s.repo.repoId < level step.repo.repoId := by
  refine lt_of_le_of_ne (hlv.le_step hs) fun heq => ?_
  obtain ⟨last, hlast⟩ := List.getLast?_isSome.mpr (List.ne_nil_of_mem hs) |>
    Option.isSome_iff_exists.mp
  have hmem : last ∈ pre := List.mem_of_getLast? hlast
  have hle : level last.repo.repoId = level step.repo.repoId :=
    le_antisymm (hlv.le_step hmem) (heq ▸ hlv.le_getLast hs hlast)
  have hsingle := h.single hcur last hlast
  rw [(hlv.parallelizable_of_eq hmem hle).1] at hsingle
  exact absurd hsingle (by decide)

/-- A step that depends on no member of the open group is on its level: otherwise a dependency one
level below would sit in the group. -/
theorem Inv.level_eq_of_not_dep {rest : List RepoStep} (h : gr.Inv level pre)
    (hlv : Leveled level (pre ++ step :: rest))
    (hdep : ¬ (step.dependsOn.any fun d => d ∈ gr.currentIds) = true) {c : RepoStep}
    (hc : c ∈ gr.current) : level step.repo.repoId = level c.repo.repoId := by
  have hcpre : c ∈ pre := h.flatten ▸ List.mem_append_right _ hc
  refine le_antisymm ?_ (hlv.le_step hcpre)
  by_contra hgt
  rw [not_le] at hgt
  obtain ⟨n, hn⟩ := Nat.exists_eq_succ_of_ne_zero (Nat.ne_of_gt (Nat.zero_lt_of_lt hgt))
  obtain ⟨t, ht, htdep, htn⟩ := hlv.dep_below step (by simp) n hn
  have htpre : t ∈ pre := hlv.mem_of_lt ht (by omega)
  rw [← h.flatten, List.mem_append] at htpre
  rcases htpre with htpre | htpre
  · have hbelow := h.below t htpre c hc
    omega
  · apply hdep
    rw [List.any_eq_true]
    exact ⟨_, htdep, decide_eq_true ((h.ids _).mpr ⟨t, htpre, rfl⟩)⟩

/-- A step that cannot run in parallel becomes a group of its own. -/
theorem Inv.alone {rest : List RepoStep} (h : gr.Inv level pre)
    (hlv : Leveled level (pre ++ step :: rest)) (hpar : ¬ step.parallelizable = true) :
    Inv level (pre ++ [step]) { gr.close with groups := gr.close.groups ++ [[step]] } := by
  obtain ⟨hflat, hcurrent, hids, hcut⟩ := h.close
  have hlt : ∀ s ∈ pre, level s.repo.repoId < level step.repo.repoId := fun s hs =>
    lt_of_le_of_ne (hlv.le_step hs) fun heq => hpar (hlv.parallelizable_of_eq hs heq).2
  refine ⟨?_, ?_, ?_, ?_, ?_, ?_⟩
  · simp [hflat, hcurrent]
  · intro id
    simp [hcurrent, hids]
  · refine hcut.concat (by simp) (by simp [Uniform]) ?_
    intro s hs t ht
    rw [List.mem_singleton.mp ht]
    exact hlt s (hflat ▸ hs)
  · simp [hcurrent, Uniform]
  · simp [hcurrent]
  · intro _
    simpa using hpar

/-- One step of the loop. -/
theorem Inv.add {rest : List RepoStep} (h : gr.Inv level pre)
    (hlv : Leveled level (pre ++ step :: rest)) : (gr.add step).Inv level (pre ++ [step]) := by
  by_cases hpar : step.parallelizable = true
  · by_cases hdep : (step.dependsOn.any fun d => d ∈ gr.currentIds) = true
    · have hadd : gr.add step = gr.close.push step := by
        simp only [Grouping.add, hpar, hdep, Bool.not_true, Bool.and_false, Bool.false_eq_true,
          if_false, if_true]
      rw [hadd]
      obtain ⟨hflat, hcurrent, hids, hcut⟩ := h.close
      exact Inv.open_group hflat hcurrent hids hcut fun s hs => h.lt_of_dep hlv hdep hs
    · have hadd : gr.add step = gr.push step := by
        simp only [Grouping.add, hpar, hdep, Bool.true_and, Bool.not_false, if_true]
      rw [hadd]
      cases hcur : gr.current with
      | nil =>
          have hpre : gr.groups.flatten = pre := by simpa [hcur] using h.flatten
          have hnone : gr.currentIds = ∅ := by
            ext id
            simp [h.ids, hcur]
          exact Inv.open_group hpre hcur hnone h.cut fun s hs => h.lt_of_current_nil hlv hcur hs
      | cons c cs =>
          have hc : c ∈ gr.current := by simp [hcur]
          exact h.join hc (h.level_eq_of_not_dep hlv hdep hc)
  · have hadd : gr.add step = { gr.close with groups := gr.close.groups ++ [[step]] } := by
      simp only [Grouping.add, hpar, Bool.false_and, Bool.false_eq_true, if_false]
    rw [hadd]
    exact h.alone hlv hpar

/-- The whole loop. -/
theorem Inv.foldl (h : gr.Inv level pre) (rest : List RepoStep)
    (hlv : Leveled level (pre ++ rest)) :
    (rest.foldl Grouping.add gr).Inv level (pre ++ rest) := by
  induction rest generalizing pre gr with
  | nil =>
      simpa using h
  | cons step rest ih =>
      have hrest := ih (h.add hlv) (by simpa using hlv)
      simpa using hrest

end Grouping

/-- The groups of a levelled plan: all steps in order, cut between levels. -/
theorem parallelGroups_spec {level : String → Nat} {plan : RepoExecutionPlan}
    (hlv : Leveled level plan.steps) :
    plan.parallelGroups.flatten = plan.steps ∧ Cut level plan.parallelGroups := by
  have hinit : Grouping.Inv level [] ⟨[], [], ∅⟩ := by
    refine ⟨rfl, by simp, Cut.nil, by simp [Uniform], by simp, by simp⟩
  obtain ⟨hflat, _, _, hcut⟩ := (hinit.foldl plan.steps hlv).close
  exact ⟨hflat, hcut⟩

end MultiRepo
end Aivcs
