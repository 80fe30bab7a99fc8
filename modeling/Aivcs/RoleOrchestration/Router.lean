import Mathlib.Data.List.SplitBy

/-!
# RoleOrchestration.Router — role plans and the handoffs they allow

`role_orchestration`: a sequence of roles becomes a plan when every role accepts a handoff from the one
before it.  A reviewer and a tester side by side run in parallel: their pair is not looked at, and
`parallelGroups` puts them into one group.

The loop of `parallelGroups` cuts the steps where two neighbours are not both parallelizable
(`parallelGroups_eq_splitBy`).  Within a group only the first member is checked, so the others are
authorised by the step before the group exactly under `SiblingsAccept` (`senders_authorised_iff`).
-/

namespace Aivcs
namespace RoleOrchestration

/-! ## Roles and templates -/

inductive AgentRole where
  | planner
  | coder
  | reviewer
  | tester
  | fixer
  deriving DecidableEq

def AgentRole.display : AgentRole → String
  | planner => "planner"
  | coder => "coder"
  | reviewer => "reviewer"
  | tester => "tester"
  | fixer => "fixer"

structure RoleTemplate where
  role : AgentRole
  acceptsFrom : List AgentRole
  deriving DecidableEq

def RoleTemplate.standardPipeline : List RoleTemplate :=
  [{ role := .planner, acceptsFrom := [] },
   { role := .coder, acceptsFrom := [.planner, .fixer] },
   { role := .reviewer, acceptsFrom := [.coder] },
   { role := .tester, acceptsFrom := [.coder, .fixer] },
   { role := .fixer, acceptsFrom := [.reviewer, .tester] }]

inductive RoleError where
  | unauthorizedHandoff (role sender : String)
  | invalidHandoffToken (reason : String)
  | emptyDecomposition (role : String)
  | conflictDetected (description : String)
  | parallelExecutionFailed (detail : String)
  /-- with the text of the error -/
  | domain (error : String)
  deriving DecidableEq

/-! ## Plans -/

structure RoleStep where
  position : Nat
  role : AgentRole
  acceptsFrom : List AgentRole
  parallelizable : Bool
  deriving DecidableEq

structure ExecutionPlan where
  taskTitle : String
  steps : List RoleStep
  deriving DecidableEq

/-- The loop over the steps, with the groups that are closed and the one that is open. -/
def groupSteps (groups : List (List RoleStep)) (current : List RoleStep) :
    List RoleStep → List (List RoleStep)
  | [] => if current = [] then groups else groups ++ [current]
  | step :: steps =>
      if step.parallelizable then
        groupSteps groups (current ++ [step]) steps
      else
        let groups := if current = [] then groups else groups ++ [current]
        groupSteps (groups ++ [[step]]) [] steps

def ExecutionPlan.parallelGroups (plan : ExecutionPlan) : List (List RoleStep) :=
  groupSteps [] [] plan.steps

def isParallel : AgentRole → Bool
  | .reviewer => true
  | .tester => true
  | _ => false

/-- The pairs of neighbours, `windows(2)`. -/
def windows (sequence : List AgentRole) : List (AgentRole × AgentRole) :=
  sequence.zip sequence.tail

/-- The loop over the pairs, in the validation and in the construction of a plan. -/
def checkWindows (templates : List RoleTemplate) : List (AgentRole × AgentRole) → Except RoleError Unit
  | [] => .ok ()
  | (sender, receiver) :: rest =>
      -- Siblings do not hand off to each other.
      if isParallel sender && isParallel receiver then
        checkWindows templates rest
      else
        match templates.find? fun t => t.role = receiver with
        | none => .error (.unauthorizedHandoff receiver.display sender.display)
        | some template =>
            if sender ∈ template.acceptsFrom then
              checkWindows templates rest
            else
              .error (.unauthorizedHandoff receiver.display sender.display)

def validateHandoffSequence (proposedSequence : List AgentRole) (templates : List RoleTemplate) :
    Except RoleError Unit :=
  checkWindows templates (windows proposedSequence)

/-- The roles a role accepts a handoff from; without a template there are none. -/
def acceptsFrom (templates : List RoleTemplate) (role : AgentRole) : List AgentRole :=
  ((templates.find? fun t => t.role = role).map RoleTemplate.acceptsFrom).getD []

def buildSteps (templates : List RoleTemplate) (sequence : List AgentRole) : List RoleStep :=
  sequence.zipIdx.map fun (role, pos) =>
    { position := pos
      role := role
      acceptsFrom := acceptsFrom templates role
      parallelizable := isParallel role }

def buildExecutionPlan (taskTitle : String) (sequence : List AgentRole)
    (templates : List RoleTemplate) : Except RoleError ExecutionPlan :=
  if sequence = [] then
    .error (.emptyDecomposition "none")
  else
    match checkWindows templates (windows sequence) with
    | .error e => .error e
    | .ok () => .ok { taskTitle := taskTitle, steps := buildSteps templates sequence }

/-! ## What the checks accept -/

/-- Neighbours the checks let pass: siblings, or a role that accepts the one before it. -/
def Allowed (templates : List RoleTemplate) (sender receiver : AgentRole) : Prop :=
  (isParallel sender = true ∧ isParallel receiver = true) ∨ sender ∈ acceptsFrom templates receiver

section Checks

variable {templates : List RoleTemplate} {sequence : List AgentRole}

theorem checkWindows_ok {pairs : List (AgentRole × AgentRole)} :
    checkWindows templates pairs = .ok () ↔ ∀ p ∈ pairs, Allowed templates p.1 p.2 := by
  induction pairs with
  | nil =>
      simp [checkWindows]
  | cons p pairs ih =>
      obtain ⟨sender, receiver⟩ := p
      rw [List.forall_mem_cons, ← ih, checkWindows]
      by_cases hparallel : isParallel sender = true ∧ isParallel receiver = true
      · rw [if_pos (by simpa using hparallel)]
        exact ⟨fun h => ⟨Or.inl hparallel, h⟩, fun h => h.2⟩
      · rw [if_neg (by simpa using hparallel)]
        have hallowed : Allowed templates sender receiver ↔ sender ∈ acceptsFrom templates receiver :=
          or_iff_right hparallel
        rw [hallowed, acceptsFrom]
        cases templates.find? fun t => t.role = receiver with
        | none =>
            simp
        | some template =>
            by_cases hmem : sender ∈ template.acceptsFrom <;> simp [hmem]

theorem validate_ok :
    validateHandoffSequence sequence templates = .ok () ↔ sequence.IsChain (Allowed templates) := by
  rw [validateHandoffSequence, checkWindows_ok, windows]
  induction sequence with
  | nil =>
      simp
  | cons role sequence ih =>
      cases sequence with
      | nil =>
          simp
      | cons next rest =>
          rw [List.isChain_cons_cons, ← ih, List.tail_cons, List.zip_cons_cons, List.forall_mem_cons]
          rfl

/-- A sequence that is not empty becomes a plan when its handoffs are valid. -/
theorem build_of_ne_nil {taskTitle : String} (hne : sequence ≠ []) :
    buildExecutionPlan taskTitle sequence templates =
      (validateHandoffSequence sequence templates).map fun _ =>
        { taskTitle := taskTitle, steps := buildSteps templates sequence } := by
  rw [buildExecutionPlan, if_neg hne, validateHandoffSequence]
  cases checkWindows templates (windows sequence) <;> rfl

theorem build_ok_iff {taskTitle : String} {plan : ExecutionPlan} :
    buildExecutionPlan taskTitle sequence templates = .ok plan ↔
      sequence ≠ [] ∧ sequence.IsChain (Allowed templates) ∧
        plan = { taskTitle := taskTitle, steps := buildSteps templates sequence } := by
  by_cases hne : sequence = []
  · simp [buildExecutionPlan, hne]
  · rw [build_of_ne_nil hne, ← validate_ok]
    cases validateHandoffSequence sequence templates with
    | error e =>
        simp [Except.map, hne]
    | ok _ =>
        simp [Except.map, hne, eq_comm]

theorem map_role_buildSteps (templates : List RoleTemplate) (sequence : List AgentRole) :
    (buildSteps templates sequence).map RoleStep.role = sequence := by
  rw [buildSteps, List.map_map]
  exact List.zipIdx_map_fst 0 sequence

theorem mem_buildSteps {step : RoleStep} (h : step ∈ buildSteps templates sequence) :
    step.acceptsFrom = acceptsFrom templates step.role ∧ step.parallelizable = isParallel step.role := by
  obtain ⟨x, _, rfl⟩ := List.mem_map.1 h
  exact ⟨rfl, rfl⟩

end Checks

/-! ## The groups -/

/-- Neighbours that belong to one group. -/
def together (a b : RoleStep) : Bool :=
  a.parallelizable && b.parallelizable

theorem isChain_together {group : List RoleStep} (h : ∀ step ∈ group, step.parallelizable = true) :
    group.IsChain fun a b => together a b = true := by
  refine List.Pairwise.isChain (List.Pairwise.imp_of_mem ?_ (List.pairwise_of_forall fun _ _ => trivial))
  intro a b ha hb _
  rw [together, h a ha, h b hb]
  rfl

/-- Closing the group that is open. -/
theorem close_eq {groups : List (List RoleStep)} {current : List RoleStep}
    (hcurrent : ∀ step ∈ current, step.parallelizable = true) :
    (if current = [] then groups else groups ++ [current]) = groups ++ current.splitBy together := by
  by_cases hnil : current = []
  · rw [if_pos hnil, hnil, List.splitBy_nil, List.append_nil]
  · rw [if_neg hnil, List.splitBy_of_isChain hnil (isChain_together hcurrent)]

/-- The groups the loop has closed, followed by those of the steps it has open and those to come. -/
theorem groupSteps_eq (steps : List RoleStep) (groups : List (List RoleStep)) (current : List RoleStep)
    (hcurrent : ∀ step ∈ current, step.parallelizable = true) :
    groupSteps groups current steps = groups ++ (current ++ steps).splitBy together := by
  induction steps generalizing groups current with
  | nil =>
      rw [groupSteps, close_eq hcurrent, List.append_nil]
  | cons step steps ih =>
      rw [groupSteps]
      by_cases hstep : step.parallelizable = true
      · have hcurrent' : ∀ s ∈ current ++ [step], s.parallelizable = true := by
          intro s hs
          rcases List.mem_append.1 hs with hs | hs
          · exact hcurrent s hs
          · exact List.mem_singleton.1 hs ▸ hstep
        rw [if_pos hstep, ih groups (current ++ [step]) hcurrent', List.append_assoc,
          List.singleton_append]
      · -- A step that is not parallelizable is a group of its own.
        have hbefore : (current ++ step :: steps).splitBy together =
            current.splitBy together ++ (step :: steps).splitBy together :=
          List.splitBy_append_cons steps fun x _ => by simp [together, hstep]
        have hafter : (step :: steps).splitBy together = [step] :: steps.splitBy together := by
          refine List.splitBy_append (l := [step]) ?_
          rintro x hx y _
          obtain rfl : step = x := by simpa using hx
          simp [together, hstep]
        have hnone : ∀ s ∈ ([] : List RoleStep), s.parallelizable = true := fun _ h =>
          absurd h List.not_mem_nil
        rw [if_neg hstep, hbefore, hafter]
        calc groupSteps ((if current = [] then groups else groups ++ [current]) ++ [[step]]) [] steps
            = groups ++ current.splitBy together ++ [[step]] ++ ([] ++ steps).splitBy together := by
              rw [close_eq hcurrent, ih _ [] hnone]
          _ = groups ++ (current.splitBy together ++ [step] :: steps.splitBy together) := by
              simp

theorem parallelGroups_eq_splitBy (plan : ExecutionPlan) :
    plan.parallelGroups = plan.steps.splitBy together :=
  groupSteps_eq plan.steps [] [] fun _ h => absurd h List.not_mem_nil

end RoleOrchestration
end Aivcs
