import Aivcs.RoleOrchestration.Router

/-!
# RoleOrchestration.Senders — who hands off to the members of a group

A plan is checked pair by pair, a handoff goes from group to group.  The two agree on the first member of
a group; the others are siblings of the one before them, and nothing looks at the role before the group.
-/

namespace Aivcs
namespace RoleOrchestration

/-- Every step after the first group accepts a handoff from a step of the group before its own. -/
def SendersAuthorised (plan : ExecutionPlan) : Prop :=
  ∀ pre group group' post, plan.parallelGroups = pre ++ group :: group' :: post →
    ∀ step ∈ group', ∃ s ∈ group, s.role ∈ step.acceptsFrom

/-- In every run of siblings after another role, those after the first accept that role. -/
def SiblingsAccept (templates : List RoleTemplate) (sequence : List AgentRole) : Prop :=
  ∀ pre sender first rest post, sequence = pre ++ sender :: first :: (rest ++ post) →
    isParallel sender = false → isParallel first = true → (∀ role ∈ rest, isParallel role = true) →
    ∀ role ∈ rest, sender ∈ acceptsFrom templates role

/-! ## Reading the groups -/

section Groups

variable {steps : List RoleStep}

/-- A group is one step, or all its steps are parallelizable. -/
theorem group_cases {group : List RoleStep} (h : group ∈ steps.splitBy together) :
    (∃ step, group = [step]) ∨ ∀ step ∈ group, step.parallelizable = true := by
  have hchain := List.isChain_of_mem_splitBy h
  match group, hchain with
  | [], _ =>
      exact Or.inr fun _ hstep => absurd hstep List.not_mem_nil
  | [step], _ =>
      exact Or.inl ⟨step, rfl⟩
  | a :: b :: rest, hchain =>
      refine Or.inr ?_
      -- Every step has a neighbour in the group, and neighbours are both parallelizable.
      have hall : ∀ (l : List RoleStep) (a b : RoleStep),
          (a :: b :: l).IsChain (fun x y => together x y = true) →
          ∀ step ∈ a :: b :: l, step.parallelizable = true := by
        intro l
        induction l with
        | nil =>
            intro a b hab
            have hpair : a.parallelizable = true ∧ b.parallelizable = true := by
              simpa [together] using hab
            simpa using hpair
        | cons c l ih =>
            intro a b hab
            rw [List.isChain_cons_cons] at hab
            have hpair : a.parallelizable = true ∧ b.parallelizable = true := by
              simpa [together] using hab.1
            exact List.forall_mem_cons.2 ⟨hpair.1, ih b c hab.2⟩
      exact hall rest a b hchain

/-- Two groups side by side meet at two steps that are not both parallelizable. -/
theorem adjacent_groups {pre post : List (List RoleStep)} {group group' : List RoleStep}
    (h : steps.splitBy together = pre ++ group :: group' :: post) :
    ∃ init last first rest, group = init ++ [last] ∧ group' = first :: rest ∧
      together last first = false ∧
      steps = (pre.flatten ++ init) ++ last :: first :: (rest ++ post.flatten) := by
  obtain ⟨hflatten, hnil, _, hchain⟩ := List.splitBy_eq_iff.1 h
  have hmeet := (List.isChain_append.1 hchain).2.1
  obtain ⟨hne, hne', hlast⟩ := (List.isChain_cons_cons.1 hmeet).1
  obtain ⟨first, rest, rfl⟩ := List.exists_cons_of_ne_nil hne'
  refine ⟨group.dropLast, group.getLast hne, first, rest, (List.dropLast_append_getLast hne).symm, rfl,
    hlast, ?_⟩
  calc steps
      = (pre ++ group :: (first :: rest) :: post).flatten := hflatten
    _ = pre.flatten ++ (group ++ (first :: rest ++ post.flatten)) := by
        rw [List.flatten_append, List.flatten_cons, List.flatten_cons]
    _ = pre.flatten ++ ((group.dropLast ++ [group.getLast hne]) ++ (first :: rest ++ post.flatten)) := by
        rw [List.dropLast_append_getLast hne]
    _ = (pre.flatten ++ group.dropLast) ++ group.getLast hne :: first :: (rest ++ post.flatten) := by
        simp

/-- A run of parallelizable steps at the start lies in the first group. -/
theorem splitBy_run {run : List RoleStep} (hne : run ≠ [])
    (hrun : ∀ step ∈ run, step.parallelizable = true) (rest : List RoleStep) :
    ∃ more groups, (run ++ rest).splitBy together = (run ++ more) :: groups := by
  have hall : ∀ step ∈ run ++ rest.takeWhile (·.parallelizable), step.parallelizable = true := by
    intro step hstep
    rcases List.mem_append.1 hstep with hstep | hstep
    · exact hrun step hstep
    · exact List.all_eq_true.1 List.all_takeWhile step hstep
  refine ⟨rest.takeWhile (·.parallelizable),
    (rest.dropWhile (·.parallelizable)).splitBy together, ?_⟩
  have hcut : ((run ++ rest.takeWhile (·.parallelizable)) ++
      rest.dropWhile (·.parallelizable)).splitBy together =
      (run ++ rest.takeWhile (·.parallelizable)).splitBy together ++
        (rest.dropWhile (·.parallelizable)).splitBy together := by
    refine List.splitBy_append ?_
    intro x _ y hy
    have hstop := List.head?_dropWhile_not (·.parallelizable) rest
    rw [Option.mem_def.1 hy] at hstop
    rw [together, Bool.and_eq_false_iff]
    exact Or.inr (by simpa using hstop)
  rw [List.splitBy_of_isChain (by simp [hne]) (isChain_together hall), List.append_assoc,
    List.takeWhile_append_dropWhile] at hcut
  exact hcut

/-- A step that is not parallelizable is a group of its own. -/
theorem splitBy_single {step : RoleStep} (hstep : step.parallelizable = false)
    (before after : List RoleStep) :
    (before ++ step :: after).splitBy together =
      before.splitBy together ++ [step] :: after.splitBy together := by
  have hfront : (before ++ step :: after).splitBy together =
      before.splitBy together ++ (step :: after).splitBy together :=
    List.splitBy_append_cons _ fun x _ => by simp [together, hstep]
  have hback : (step :: after).splitBy together = [step] :: after.splitBy together := by
    refine List.splitBy_append (l := [step]) ?_
    rintro x hx y _
    obtain rfl : step = x := by simpa using hx
    simp [together, hstep]
  rw [hfront, hback]

end Groups

/-! ## The exact condition -/

section Plan

variable {templates : List RoleTemplate} {sequence : List AgentRole}

/-- Valid handoffs authorise the first member of a group, and `SiblingsAccept` the others. -/
theorem sendersAuthorised_of_siblingsAccept {taskTitle : String}
    (hchain : sequence.IsChain (Allowed templates)) (hsiblings : SiblingsAccept templates sequence) :
    SendersAuthorised { taskTitle := taskTitle, steps := buildSteps templates sequence } := by
  intro pre group group' post hgroups step hstep
  rw [parallelGroups_eq_splitBy] at hgroups
  obtain ⟨init, last, first, rest, rfl, rfl, hmeet, hsteps⟩ := adjacent_groups hgroups
  have hbuilt : ∀ s ∈ buildSteps templates sequence,
      s.acceptsFrom = acceptsFrom templates s.role ∧ s.parallelizable = isParallel s.role :=
    fun s hs => mem_buildSteps hs
  change buildSteps templates sequence = _ at hsteps
  rw [hsteps] at hbuilt
  obtain ⟨_, hlast⟩ := hbuilt last (by simp)
  obtain ⟨hfirstAccepts, hfirst⟩ := hbuilt first (by simp)
  have hseq : sequence = (pre.flatten ++ init).map RoleStep.role ++ last.role :: first.role ::
      (rest.map RoleStep.role ++ post.flatten.map RoleStep.role) := by
    rw [← map_role_buildSteps templates sequence, hsteps]
    simp
  refine ⟨last, by simp, ?_⟩
  rcases List.mem_cons.1 hstep with rfl | hstep
  · -- The pair where the groups meet is one of those that were checked.
    have hpair : Allowed templates last.role step.role := by
      rw [hseq] at hchain
      exact (List.isChain_cons_cons.1 (List.isChain_append.1 hchain).2.1).1
    rw [hfirstAccepts]
    refine hpair.resolve_left ?_
    rintro ⟨hl, hf⟩
    rw [together, hlast, hfirst, hl, hf] at hmeet
    cases hmeet
  · obtain ⟨haccepts, _⟩ := hbuilt step (by simp [hstep])
    have hgroup : ∀ s ∈ first :: rest, s.parallelizable = true := by
      have hmem : first :: rest ∈ (buildSteps templates sequence).splitBy together := by
        change (buildSteps templates sequence).splitBy together = _ at hgroups
        rw [hgroups]
        simp
      rcases group_cases hmem with ⟨s, hs⟩ | hall
      · obtain ⟨_, rfl⟩ := List.cons_eq_cons.1 hs
        exact absurd hstep List.not_mem_nil
      · exact hall
    have hparallel : isParallel first.role = true := hfirst ▸ hgroup first List.mem_cons_self
    have hsender : isParallel last.role = false := by
      rw [together, hlast, hfirst, hparallel, Bool.and_true] at hmeet
      exact hmeet
    have hrest : ∀ role ∈ rest.map RoleStep.role, isParallel role = true := by
      intro role hrole
      obtain ⟨s, hs, rfl⟩ := List.mem_map.1 hrole
      rw [← (hbuilt s (by simp [hs])).2]
      exact hgroup s (List.mem_cons_of_mem first hs)
    rw [haccepts]
    exact hsiblings _ _ _ _ _ hseq hsender hparallel hrest _ (List.mem_map_of_mem hstep)

/-- A run of siblings lies in the group after the role before it. -/
theorem siblingsAccept_of_sendersAuthorised {taskTitle : String}
    (h : SendersAuthorised { taskTitle := taskTitle, steps := buildSteps templates sequence }) :
    SiblingsAccept templates sequence := by
  intro pre sender first rest post hseq hsender hfirst hrest role hrole
  have hroles := map_role_buildSteps templates sequence
  rw [hseq] at hroles
  obtain ⟨before, after, hsteps, _, hafter⟩ := List.map_eq_append_iff.1 hroles
  obtain ⟨s, tail, rfl, rfl, htail⟩ := List.map_eq_cons_iff.1 hafter
  have htail : tail.map RoleStep.role = (first :: rest) ++ post := htail
  obtain ⟨run, later, rfl, hrun, _⟩ := List.map_eq_append_iff.1 htail
  have hbuilt : ∀ s ∈ buildSteps templates sequence,
      s.acceptsFrom = acceptsFrom templates s.role ∧ s.parallelizable = isParallel s.role :=
    fun s hs => mem_buildSteps hs
  rw [hseq, hsteps] at hbuilt
  have hparallel : ∀ s ∈ run, s.parallelizable = true := by
    intro x hx
    rw [(hbuilt x (by simp [hx])).2]
    have hmem : x.role ∈ first :: rest := hrun ▸ List.mem_map_of_mem hx
    rcases List.mem_cons.1 hmem with heq | hmem
    · exact heq ▸ hfirst
    · exact hrest _ hmem
  have hne : run ≠ [] := by
    rintro rfl
    cases hrun
  obtain ⟨more, groups, hsplit⟩ := splitBy_run hne hparallel later
  have hs : s.parallelizable = false := (hbuilt s (by simp)).2.trans hsender
  have hgroups : (before ++ s :: (run ++ later)).splitBy together =
      before.splitBy together ++ [s] :: (run ++ more) :: groups := by
    rw [splitBy_single hs, hsplit]
  have hmem : role ∈ run.map RoleStep.role := hrun ▸ List.mem_cons_of_mem first hrole
  obtain ⟨x, hx, rfl⟩ := List.mem_map.1 hmem
  have hplan := (parallelGroups_eq_splitBy { taskTitle := taskTitle, steps := _ }).trans
    ((congrArg (List.splitBy together) (hseq ▸ hsteps)).trans hgroups)
  obtain ⟨s', hs', haccepts⟩ := h _ _ _ _ hplan x (by simp [hx])
  rw [List.mem_singleton.1 hs', (hbuilt x (by simp [hx])).1] at haccepts
  exact haccepts

end Plan

/-- The plans of a sequence have authorised senders, and the construction accepts what the validation
accepts, exactly when the sequence is not accepted or its siblings accept the role before them. -/
theorem senders_authorised_iff (taskTitle : String) (sequence : List AgentRole)
    (templates : List RoleTemplate) :
    ((∀ plan, buildExecutionPlan taskTitle sequence templates = .ok plan → SendersAuthorised plan) ∧
      (sequence ≠ [] → ((∃ plan, buildExecutionPlan taskTitle sequence templates = .ok plan) ↔
        validateHandoffSequence sequence templates = .ok ()))) ↔
      (sequence.IsChain (Allowed templates) → SiblingsAccept templates sequence) := by
  constructor
  · rintro ⟨hplan, _⟩ hchain
    by_cases hne : sequence = []
    · subst hne
      intro pre sender first rest post hseq
      exact absurd hseq (by simp)
    · exact siblingsAccept_of_sendersAuthorised
        (hplan _ (build_ok_iff.2 ⟨hne, hchain, rfl⟩))
  · intro h
    refine ⟨?_, ?_⟩
    · intro plan hbuild
      obtain ⟨_, hchain, rfl⟩ := build_ok_iff.1 hbuild
      exact sendersAuthorised_of_siblingsAccept hchain (h hchain)
    · intro hne
      rw [validate_ok]
      constructor
      · rintro ⟨plan, hbuild⟩
        exact (build_ok_iff.1 hbuild).2.1
      · intro hchain
        exact ⟨_, build_ok_iff.2 ⟨hne, hchain, rfl⟩⟩

/-- A fixer hands off to a tester, and to the reviewer beside it, who accepts from a coder only. -/
theorem not_senders_authorised :
    ¬ ∀ templates : List RoleTemplate, (templates.map RoleTemplate.role).Nodup →
      ∀ taskTitle sequence,
        (∀ plan, buildExecutionPlan taskTitle sequence templates = .ok plan → SendersAuthorised plan) ∧
        (sequence ≠ [] → ((∃ plan, buildExecutionPlan taskTitle sequence templates = .ok plan) ↔
          validateHandoffSequence sequence templates = .ok ())) := by
  intro h
  have hplan := (h RoleTemplate.standardPipeline (by decide) "task" [.fixer, .tester, .reviewer]).1 _ rfl
  have hreviewer := hplan [] _ _ [] rfl
    { position := 2, role := .reviewer, acceptsFrom := [.coder], parallelizable := true } (by decide)
  exact absurd hreviewer (by decide)

end RoleOrchestration
end Aivcs
