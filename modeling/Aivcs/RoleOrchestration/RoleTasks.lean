import Aivcs.RoleOrchestration.Executor

/-!
# RoleOrchestration.RoleTasks — what a turn of a role task does

What a task has done shows in the world as the `part` of its own run: the status in the ledger, the calls of
the executor and the results with the identifier of the run.  A turn changes that part as the phase of the
task says and leaves the parts of the others alone (`turn_moves`), and some task can take one until all have
ended (`exists_finished`).
-/

namespace Aivcs
namespace RoleOrchestration

open Aivcs.Lib Aivcs.State

/-! ## The part of the world that belongs to a run -/

/-- The status of a run, the calls of the executor for it and its results. -/
structure RunPart where
  status : Option RunStatus
  calls : List (AgentRole × RunId)
  results : List RoleRunResult

def World.part {σ : Type} (ops : LedgerOps σ) (w : World σ) (runId : RunId) : RunPart where
  status := ops.status w.ledger runId
  calls := w.calls.filter fun c => c.2 = runId
  results := w.results.filter fun r => r.runId = runId

namespace Batch

variable {σ : Type} (b : Batch σ) (Ok : σ → Prop)

/-- Calls and results are of the runs of the roles, and a failed call has raised the flag. -/
structure Sound (w : World σ) : Prop where
  ok : Ok w.ledger
  calls : ∀ c ∈ w.calls, ∃ i, b.roles[i]? = some c.1 ∧ c.2 = b.runIds i
  results : ∀ r ∈ w.results, ∃ i role, b.roles[i]? = some role ∧ r.runId = b.runIds i
  flag : w.failFlag = true →
    b.config.failFast = true ∧ ∃ c ∈ w.calls, ∃ e, b.roleExecutor c.1 c.2 = .error e

/-- From one world to the next the part of the `i`-th run becomes `part`, and the others stay. -/
structure Moves (i : Nat) (w w' : World σ) (part : RunPart) : Prop where
  sound : b.Sound Ok w'
  own : w'.part b.ops (b.runIds i) = part
  others : ∀ runId, runId ≠ b.runIds i → w'.part b.ops runId = w.part b.ops runId
  flag : w.failFlag = true → w'.failFlag = true

section Moves

variable {b Ok} {w : World σ} {i : Nat} (h : b.Sound Ok w)
include h

theorem moves_permits (n : Nat) :
    b.Moves Ok i w { w with permits := n } (w.part b.ops (b.runIds i)) where
  sound := ⟨h.ok, h.calls, h.results, h.flag⟩
  own := rfl
  others := fun _ _ => rfl
  flag := id

theorem moves_ledger {l : σ} {status : Option RunStatus} (hok : Ok l)
    (hstatus : b.ops.status l = Function.update (b.ops.status w.ledger) (b.runIds i) status) :
    b.Moves Ok i w { w with ledger := l } { w.part b.ops (b.runIds i) with status := status } where
  sound := ⟨hok, h.calls, h.results, h.flag⟩
  own := by simp [World.part, hstatus]
  others := by
    intro runId hne
    simp [World.part, hstatus, Function.update_of_ne hne]
  flag := id

theorem moves_call {role : AgentRole} (hrole : b.roles[i]? = some role) :
    b.Moves Ok i w { w with calls := w.calls ++ [(role, b.runIds i)] }
      { w.part b.ops (b.runIds i) with
        calls := (w.part b.ops (b.runIds i)).calls ++ [(role, b.runIds i)] } where
  sound := by
    refine ⟨h.ok, ?_, h.results, ?_⟩
    · intro c hc
      rcases List.mem_append.1 hc with hc | hc
      · exact h.calls c hc
      · obtain rfl := List.mem_singleton.1 hc
        exact ⟨i, hrole, rfl⟩
    · intro hflag
      rcases h.flag hflag with ⟨hfast, c, hc, hfail⟩
      exact ⟨hfast, c, List.mem_append_left _ hc, hfail⟩
  own := by simp [World.part]
  others := by
    intro runId hne
    simp [World.part, Ne.symm hne]
  flag := id

theorem moves_raise (hfail : ∃ c ∈ w.calls, ∃ e, b.roleExecutor c.1 c.2 = .error e) :
    b.Moves Ok i w { w with failFlag := w.failFlag || b.config.failFast }
      (w.part b.ops (b.runIds i)) where
  sound := by
    refine ⟨h.ok, h.calls, h.results, ?_⟩
    intro hflag
    rcases Bool.or_eq_true _ _ ▸ hflag with hflag | hfast
    · exact h.flag hflag
    · exact ⟨hfast, hfail⟩
  own := rfl
  others := fun _ _ => rfl
  flag := by
    intro hflag
    simp [hflag]

theorem moves_push {role : AgentRole} (hrole : b.roles[i]? = some role) {r : RoleRunResult}
    (hr : r.runId = b.runIds i) :
    b.Moves Ok i w { w with results := w.results ++ [r] }
      { w.part b.ops (b.runIds i) with
        results := (w.part b.ops (b.runIds i)).results ++ [r] } where
  sound := by
    refine ⟨h.ok, h.calls, ?_, h.flag⟩
    intro r' hr'
    rcases List.mem_append.1 hr' with hr' | hr'
    · exact h.results r' hr'
    · obtain rfl := List.mem_singleton.1 hr'
      exact ⟨i, role, hrole, hr⟩
  own := by simp [World.part, hr]
  others := by
    intro runId hne
    simp [World.part, hr, Ne.symm hne]
  flag := id

end Moves

/-! ## Where a task stands -/

/-- The status in which the run of a call ends. -/
def endStatus (c : AgentRole × RunId) : RunStatus :=
  match b.roleExecutor c.1 c.2 with
  | .ok _ => .completed
  | .error _ => .failed

/-- A task that has ended was executed, or it found the flag raised. -/
def Ended (call : AgentRole × RunId) (flag : Bool) (part : RunPart) : Prop :=
  part = ⟨some (b.endStatus call), [call], [b.resultOf call]⟩ ∨
    (flag = true ∧ part = ⟨none, [], []⟩)

/-- The part of the world that belongs to the run of `call`, by the phase of its task. -/
def Stands (call : AgentRole × RunId) (flag : Bool) (part : RunPart) : Phase → Prop
  | .waiting | .admitted | .starting => part = ⟨none, [], []⟩
  | .created runId => runId = call.2 ∧ part = ⟨some .running, [], []⟩
  | .executing runId => runId = call.2 ∧ part = ⟨some .running, [call], []⟩
  | .executed runId answer =>
      runId = call.2 ∧ answer = b.roleExecutor call.1 call.2 ∧ part = ⟨some .running, [call], []⟩
  | .failing result =>
      (∃ e, b.roleExecutor call.1 call.2 = .error e) ∧ result = b.resultOf call ∧
        part = ⟨some (b.endStatus call), [call], []⟩
  | .publishing result =>
      result = b.resultOf call ∧ part = ⟨some (b.endStatus call), [call], []⟩
  | .leaving | .finished => b.Ended call flag part

/-- The assertion of the `i`-th task. -/
def TaskStands (i : Nat) (t : RoleTask) (w : World σ) : Prop :=
  b.roles[i]? = some t.role ∧
    b.Stands (t.role, b.runIds i) w.failFlag (w.part b.ops (b.runIds i)) t.phase

section Turn

variable {b Ok} {w w' : World σ} {i : Nat} {t t' : RoleTask}

/-- A raised flag stays raised, so nothing is asserted that raising it makes false. -/
theorem Stands.mono {call : AgentRole × RunId} {flag flag' : Bool} {part : RunPart} {phase : Phase}
    (h : b.Stands call flag part phase) (hflag : flag = true → flag' = true) :
    b.Stands call flag' part phase := by
  have hended : b.Ended call flag part → b.Ended call flag' part := by
    rintro (hdone | ⟨hraised, hpart⟩)
    · exact Or.inl hdone
    · exact Or.inr ⟨hflag hraised, hpart⟩
  cases phase with
  | leaving =>
      exact hended h
  | finished =>
      exact hended h
  | _ =>
      exact h

/-- A call that is in the part of its run is among the calls. -/
theorem mem_calls_of_part {call : AgentRole × RunId} {runId : RunId}
    (h : (w.part b.ops runId).calls = [call]) : call ∈ w.calls := by
  have hmem : call ∈ w.calls.filter fun c => c.2 = runId := by
    change call ∈ (w.part b.ops runId).calls
    rw [h]
    exact List.mem_cons_self
  exact (List.mem_filter.1 hmem).1

/-- A turn moves the world, and the task is where its phase says. -/
theorem turn_moves (hl : b.ops.Faultless Ok) (h : b.Sound Ok w) (ht : b.TaskStands i t w)
    (hturn : b.turn i t w = some (t', w')) :
    ∃ part, b.Moves Ok i w w' part ∧ t'.role = t.role ∧
      b.Stands (t.role, b.runIds i) w'.failFlag part t'.phase := by
  obtain ⟨role, phase⟩ := t
  generalize hpart : w.part b.ops (b.runIds i) = part
  have hrole : b.roles[i]? = some role := ht.1
  have hstands : b.Stands (role, b.runIds i) w.failFlag part phase := hpart ▸ ht.2
  have hstatus : b.ops.status w.ledger (b.runIds i) = part.status := hpart ▸ rfl
  cases phase with
  | waiting =>
      obtain rfl : part = ⟨none, [], []⟩ := hstands
      simp only [turn] at hturn
      split at hturn
      · cases hturn
        exact ⟨_, moves_permits h _, rfl, hpart⟩
      · cases hturn
  | admitted =>
      obtain rfl : part = ⟨none, [], []⟩ := hstands
      simp only [turn] at hturn
      split at hturn
      · rename_i hflag
        cases hturn
        exact ⟨_, moves_permits h _, rfl, Or.inr ⟨hflag, hpart⟩⟩
      · cases hturn
        exact ⟨_, moves_permits h _, rfl, hpart⟩
  | starting =>
      -- The run is new, so `create_run` does not fail.
      obtain rfl : part = ⟨none, [], []⟩ := hstands
      obtain ⟨l, hcreate, hok, hl'⟩ := hl.createRun b.specDigest (b.metadata role) h.ok hstatus
      simp only [turn, hcreate] at hturn
      cases hturn
      exact ⟨_, moves_ledger h hok hl', rfl, rfl, by rw [hpart]⟩
  | created runId =>
      obtain ⟨hrun, rfl⟩ := hstands
      obtain rfl : runId = b.runIds i := hrun
      cases hturn
      exact ⟨_, moves_call h hrole, rfl, rfl, by rw [hpart]; rfl⟩
  | executing runId =>
      obtain ⟨hrun, rfl⟩ := hstands
      obtain rfl : runId = b.runIds i := hrun
      cases hturn
      exact ⟨_, moves_permits h _, rfl, rfl, rfl, hpart⟩
  | executed runId answer =>
      -- The run is still running, so it can be ended as the executor has answered.
      obtain ⟨hrun, hanswer, rfl⟩ := hstands
      obtain rfl : runId = b.runIds i := hrun
      cases answer with
      | ok output =>
          obtain ⟨l, hended, hok, hl'⟩ := hl.completeRun ⟨1, none, 0, true⟩ h.ok hstatus
          simp only [turn, hended] at hturn
          cases hturn
          refine ⟨_, moves_ledger h hok hl', rfl, ?_, ?_⟩
          · simp only [resultOf, ← hanswer]
          · simp only [hpart, endStatus, ← hanswer]
      | error e =>
          obtain ⟨l, hended, hok, hl'⟩ := hl.failRun ⟨0, none, 0, false⟩ h.ok hstatus
          simp only [turn, hended] at hturn
          cases hturn
          refine ⟨_, moves_ledger h hok hl', rfl, ⟨e, hanswer.symm⟩, ?_, ?_⟩
          · simp only [resultOf, ← hanswer]
          · simp only [hpart, endStatus, ← hanswer]
  | failing result =>
      obtain ⟨hfail, rfl, rfl⟩ := hstands
      cases hturn
      -- The flag is raised for a call that has failed.
      have hcalled : (role, b.runIds i) ∈ w.calls := mem_calls_of_part (congrArg RunPart.calls hpart)
      exact ⟨_, moves_raise h ⟨_, hcalled, hfail⟩, rfl, rfl, hpart⟩
  | publishing result =>
      obtain ⟨rfl, rfl⟩ := hstands
      cases hturn
      exact ⟨_, moves_push h hrole (b.runId_resultOf _), rfl, Or.inl (by rw [hpart]; rfl)⟩
  | leaving =>
      cases hturn
      exact ⟨_, moves_permits h _, rfl, hpart ▸ hstands⟩
  | finished =>
      cases hturn

end Turn

end Batch

/-! ## No task waits for ever -/

/-- The permits a task holds. -/
def Phase.held : Phase → Nat
  | .waiting => 0
  | .finished => 0
  | _ => 1

/-- The turns a task has left. -/
def Phase.left : Phase → Nat
  | .waiting => 9
  | .admitted => 8
  | .starting => 7
  | .created _ => 6
  | .executing _ => 5
  | .executed _ _ => 4
  | .failing _ => 3
  | .publishing _ => 2
  | .leaving => 1
  | .finished => 0

namespace Batch

variable {σ : Type} (b : Batch σ)

section Progress

variable {b}

/-- Only the first and the last turn move a permit, and every turn is one less to take. -/
theorem turn_counts {i : Nat} {t t' : RoleTask} {w w' : World σ} (hturn : b.turn i t w = some (t', w')) :
    w'.permits + t'.phase.held = w.permits + t.phase.held ∧ t'.phase.left < t.phase.left := by
  obtain ⟨role, phase⟩ := t
  cases phase with
  | waiting =>
      simp only [turn] at hturn
      split at hturn
      · rename_i hfree
        cases hturn
        refine ⟨?_, (by decide : 8 < 9)⟩
        change w.permits - 1 + 1 = w.permits
        omega
      · cases hturn
  | admitted =>
      simp only [turn] at hturn
      split at hturn <;> cases hturn
      · exact ⟨rfl, (by decide : 1 < 8)⟩
      · exact ⟨rfl, (by decide : 7 < 8)⟩
  | starting =>
      simp only [turn] at hturn
      split at hturn <;> cases hturn
      · exact ⟨rfl, (by decide : 6 < 7)⟩
      · exact ⟨rfl, (by decide : 3 < 7)⟩
  | executed runId answer =>
      cases answer with
      | ok output =>
          cases hturn
          exact ⟨rfl, (by decide : 2 < 4)⟩
      | error e =>
          cases hturn
          exact ⟨rfl, (by decide : 3 < 4)⟩
  | finished =>
      cases hturn
  | _ =>
      cases hturn
      exact ⟨rfl, Nat.lt_succ_self _⟩

/-- A task can go on unless it has ended or waits for a permit and there is none. -/
theorem turn_isSome {t : RoleTask} {w : World σ} (i : Nat)
    (h : t.phase.held = 1 ∨ (0 < w.permits ∧ t.phase.isFinished = false)) : ∃ r, b.turn i t w = some r := by
  obtain ⟨role, phase⟩ := t
  cases phase with
  | waiting =>
      have hfree : 0 < w.permits := (h.resolve_left Nat.zero_ne_one).1
      exact ⟨_, if_pos hfree⟩
  | admitted =>
      simp only [turn]
      split <;> exact ⟨_, rfl⟩
  | starting =>
      simp only [turn]
      split <;> exact ⟨_, rfl⟩
  | executed runId answer =>
      cases answer <;> exact ⟨_, rfl⟩
  | finished =>
      rcases h with h | ⟨_, h⟩ <;> cases h
  | _ =>
      exact ⟨_, rfl⟩

/-- As long as there are permits at all, some task can go on until all have ended. -/
theorem exists_canStep {p : Pool RoleTask (World σ)}
    (hpermits : 0 < p.shared.permits + (p.tasks.map fun t => t.phase.held).sum)
    (hend : ¬ p.tasks.all (fun t => t.phase.isFinished) = true) : ∃ i, p.CanStep b.turn i := by
  by_cases hfree : 0 < p.shared.permits
  · obtain ⟨t, ht, hphase⟩ : ∃ t ∈ p.tasks, t.phase.isFinished = false := by
      simpa using hend
    obtain ⟨i, hi⟩ := List.mem_iff_getElem?.1 ht
    obtain ⟨r, hr⟩ := turn_isSome (b := b) i (Or.inr ⟨hfree, hphase⟩)
    exact ⟨i, t, r, hi, hr⟩
  · have hsum : (p.tasks.map fun t => t.phase.held).sum ≠ 0 := by omega
    -- All permits are out, so somebody holds one.
    obtain ⟨n, hn, hne⟩ : ∃ n ∈ p.tasks.map fun t => t.phase.held, n ≠ 0 := by
      by_contra hnone
      refine hsum (List.sum_eq_zero ?_)
      intro n hn
      by_contra hne
      exact hnone ⟨n, hn, hne⟩
    obtain ⟨t, ht, rfl⟩ := List.mem_map.1 hn
    have hheld : t.phase.held = 1 := by
      obtain ⟨role, phase⟩ := t
      cases phase <;> first | rfl | exact absurd rfl hne
    obtain ⟨i, hi⟩ := List.mem_iff_getElem?.1 ht
    obtain ⟨r, hr⟩ := turn_isSome (b := b) (w := p.shared) i (Or.inl hheld)
    exact ⟨i, t, r, hi, hr⟩

/-- With a permit to give, the tasks can be brought to their end from wherever they are. -/
theorem exists_finished {p : Pool RoleTask (World σ)}
    (hpermits : 0 < p.shared.permits + (p.tasks.map fun t => t.phase.held).sum) :
    ∃ schedule, (after (Pool.step b.turn) p schedule).tasks.all (fun t => t.phase.isFinished) = true := by
  refine Pool.exists_finished
    (I := fun p => 0 < p.shared.permits + (p.tasks.map fun t => t.phase.held).sum)
    (F := fun p => p.tasks.all (fun t => t.phase.isFinished) = true)
    (fun i t w t' w' hturn => (turn_counts hturn).2) ?_ (fun p => exists_canStep) hpermits
  intro p i hp
  have hsame := Pool.after_conserves b.turn World.permits (fun t : RoleTask => t.phase.held)
    (fun i t w t' w' hturn => (turn_counts hturn).1) p [i]
  exact hsame.symm ▸ hp

end Progress

end Batch

end RoleOrchestration
end Aivcs
