import Aivcs.Lib.Entries
import Aivcs.RoleOrchestration.RoleTasks

/-!
# RoleOrchestration.ParallelVerdict — when the verdict on a batch is right

At the end every role was executed, with one result and an ended run, or its task found the flag raised
(`ends_of_answer`).  The results are those of the calls, so the verdict is a failure exactly when every call
has failed (`verdict_error_iff_calls`), which is right unless a role was not executed (`reported_iff`).

With `fail_fast` a failure that comes first keeps all other roles from being executed, and the verdict then
says that every role failed; `executeRolesParallel_reports_iff` is the exact condition on a batch.
-/

namespace Aivcs
namespace RoleOrchestration

open Aivcs.Lib Aivcs.State

/-- The phases of a task that is not executed. -/
def Phase.isIdle : Phase → Bool
  | .waiting => true
  | .admitted => true
  | .leaving => true
  | .finished => true
  | _ => false

namespace Batch

variable {σ : Type} (b : Batch σ) (Ok : σ → Prop)

/-! ## What the world shows at the end -/

/-- The task of every role has ended. -/
def AllEnded (w : World σ) : Prop :=
  ∀ i role, b.roles[i]? = some role →
    b.Ended (role, b.runIds i) w.failFlag (w.part b.ops (b.runIds i))

section End

variable {b Ok} {w : World σ} {i : Nat} {role : AgentRole}

theorem success_resultOf (c : AgentRole × RunId) :
    (b.resultOf c).success = true ↔ ∃ output, b.roleExecutor c.1 c.2 = .ok output := by
  unfold resultOf
  cases b.roleExecutor c.1 c.2 <;> simp [RoleRunResult.failed]

theorem endStatus_eq_completed (c : AgentRole × RunId) :
    b.endStatus c = .completed ↔ ∃ output, b.roleExecutor c.1 c.2 = .ok output := by
  unfold endStatus
  cases b.roleExecutor c.1 c.2 <;> simp

theorem exists_error_iff (c : AgentRole × RunId) :
    (∃ e, b.roleExecutor c.1 c.2 = .error e) ↔ (b.resultOf c).success = false := by
  unfold resultOf
  cases b.roleExecutor c.1 c.2 <;> simp [RoleRunResult.failed]

theorem verdict_error_iff {results : List RoleRunResult} :
    (∃ e, verdict results = .error e) ↔ results ≠ [] ∧ ∀ r ∈ results, r.success = false := by
  unfold verdict
  split
  · rename_i h
    simpa using h
  · rename_i h
    simpa using h

theorem AllEnded.of_mem (he : b.AllEnded w) (hrole : b.roles[i]? = some role)
    (hmem : (role, b.runIds i) ∈ w.calls) :
    w.part b.ops (b.runIds i) = ⟨some (b.endStatus (role, b.runIds i)), [(role, b.runIds i)],
      [b.resultOf (role, b.runIds i)]⟩ := by
  rcases he i role hrole with hdone | ⟨_, hpart⟩
  · exact hdone
  · -- Without a call in its part the run has none at all.
    have hnil : (w.part b.ops (b.runIds i)).calls = [] := congrArg RunPart.calls hpart
    have hmem' : (role, b.runIds i) ∈ (w.part b.ops (b.runIds i)).calls :=
      List.mem_filter.2 ⟨hmem, by simp⟩
    rw [hnil] at hmem'
    cases hmem'

variable (hs : b.Sound Ok w) (he : b.AllEnded w)

include he in
theorem mem_calls_of_flag (hflag : w.failFlag = false) (hrole : b.roles[i]? = some role) :
    (role, b.runIds i) ∈ w.calls := by
  rcases he i role hrole with hdone | ⟨hraised, _⟩
  · exact mem_calls_of_part (congrArg RunPart.calls hdone)
  · rw [hflag] at hraised
    cases hraised

include hs he

/-- The results of a run are those of its calls, and it has at most one. -/
theorem part_results (runId : RunId) :
    (w.part b.ops runId).results = (w.part b.ops runId).calls.map b.resultOf ∧
      (w.part b.ops runId).calls.length ≤ 1 := by
  by_cases hown : ∃ i role, b.roles[i]? = some role ∧ runId = b.runIds i
  · obtain ⟨i, role, hrole, rfl⟩ := hown
    rcases he i role hrole with hdone | ⟨_, hpart⟩
    · rw [hdone]
      exact ⟨rfl, le_rfl⟩
    · rw [hpart]
      exact ⟨rfl, Nat.zero_le 1⟩
  · -- A call or a result belongs to the run of a role.
    have hcalls : (w.part b.ops runId).calls = [] := by
      refine List.filter_eq_nil_iff.2 ?_
      intro c hc heq
      obtain ⟨i, hrole, hid⟩ := hs.calls c hc
      exact hown ⟨i, c.1, hrole, (of_decide_eq_true heq).symm.trans hid⟩
    have hresults : (w.part b.ops runId).results = [] := by
      refine List.filter_eq_nil_iff.2 ?_
      intro r hr heq
      obtain ⟨i, role, hrole, hid⟩ := hs.results r hr
      exact hown ⟨i, role, hrole, (of_decide_eq_true heq).symm.trans hid⟩
    rw [hcalls, hresults]
    exact ⟨rfl, Nat.zero_le 1⟩

/-- Every call has pushed its result. -/
theorem results_perm : w.results.Perm (w.calls.map b.resultOf) := by
  refine HashMap.perm_of_filter_perm RoleRunResult.runId ?_
  intro runId
  have hcalls : (w.calls.map b.resultOf).filter (fun r => r.runId = runId) =
      (w.part b.ops runId).calls.map b.resultOf := by
    rw [List.filter_map]
    refine congrArg (List.map _) (List.filter_congr ?_)
    intro c _
    rw [Function.comp_apply, runId_resultOf]
  rw [hcalls, ← (part_results hs he runId).1]
  exact List.Perm.refl _

theorem nodup_results : (w.results.map RoleRunResult.runId).Nodup := by
  refine HashMap.nodup_map_of_filter _ ?_
  intro runId
  have hpart := part_results hs he runId
  calc (w.part b.ops runId).results.length
      = (w.part b.ops runId).calls.length := by rw [hpart.1, List.length_map]
    _ ≤ 1 := hpart.2

theorem nodup_calls : (w.calls.map Prod.snd).Nodup :=
  HashMap.nodup_map_of_filter _ fun runId => (part_results hs he runId).2

theorem status_of_mem {c : AgentRole × RunId} (hc : c ∈ w.calls) :
    b.ops.status w.ledger c.2 = some (b.endStatus c) := by
  obtain ⟨role, runId⟩ := c
  obtain ⟨i, hrole, hid⟩ := hs.calls _ hc
  obtain rfl : runId = b.runIds i := hid
  exact congrArg RunPart.status (he.of_mem hrole hc)

/-- Somebody is executed: the flag is raised by a call only. -/
theorem calls_ne_nil (hroles : b.roles ≠ []) : w.calls ≠ [] := by
  obtain ⟨role, rest, hcons⟩ := List.exists_cons_of_ne_nil hroles
  have hrole : b.roles[0]? = some role := by rw [hcons]; rfl
  cases hflag : w.failFlag with
  | true =>
      obtain ⟨_, c, hc, _⟩ := hs.flag hflag
      exact List.ne_nil_of_mem hc
  | false =>
      exact List.ne_nil_of_mem (mem_calls_of_flag he hflag hrole)

/-- The verdict is a failure exactly when every call has failed. -/
theorem verdict_error_iff_calls (hroles : b.roles ≠ []) :
    (∃ e, verdict w.results = .error e) ↔
      ∀ c ∈ w.calls, ∃ e, b.roleExecutor c.1 c.2 = .error e := by
  have hperm := results_perm hs he
  have hne : w.results ≠ [] := by
    intro hnil
    rw [hnil] at hperm
    exact calls_ne_nil hs he hroles (List.map_eq_nil_iff.1 hperm.nil_eq.symm)
  calc (∃ e, verdict w.results = .error e)
      ↔ ∀ r ∈ w.results, r.success = false := by
        rw [verdict_error_iff]
        exact and_iff_right hne
    _ ↔ ∀ r ∈ w.calls.map b.resultOf, r.success = false := by
        simp only [hperm.mem_iff]
    _ ↔ ∀ c ∈ w.calls, ∃ e, b.roleExecutor c.1 c.2 = .error e := by
        simp only [List.forall_mem_map, exists_error_iff]

/-- The verdict is right unless all calls failed and a role was not executed. -/
theorem reported_iff (hroles : b.roles ≠ []) :
    b.Reported (verdict w.results) w ↔
      ((∀ c ∈ w.calls, ∃ e, b.roleExecutor c.1 c.2 = .error e) →
        ∀ i role, b.roles[i]? = some role → (role, b.runIds i) ∈ w.calls) := by
  have hverdict := verdict_error_iff_calls hs he hroles
  constructor
  · intro h hfail i role hrole
    exact (h.error_iff.1 (hverdict.2 hfail) i role hrole).1
  · intro h
    refine ⟨?_, ⟨List.Nodup.of_map _ (nodup_calls hs he), hs.calls⟩, ?_, ?_⟩
    · rw [hverdict]
      constructor
      · intro hfail i role hrole
        exact ⟨h hfail i role hrole, hfail _ (h hfail i role hrole)⟩
      · intro hall c hc
        obtain ⟨role, runId⟩ := c
        obtain ⟨i, hrole, hid⟩ := hs.calls _ hc
        obtain rfl : runId = b.runIds i := hid
        exact (hall i role hrole).2
    · -- The results are those of the calls, and what they say was so when the runs were ended.
      intro results hok
      obtain rfl : w.results = results := by
        unfold verdict at hok
        split at hok
        · cases hok
        · exact Except.ok.inj hok
      refine ⟨results_perm hs he, nodup_results hs he, ?_⟩
      intro r hr
      obtain ⟨c, hc, rfl⟩ := List.mem_map.1 ((results_perm hs he).mem_iff.1 hr)
      have hrole : (b.resultOf c).role = c.1 := b.role_resultOf c
      rw [runId_resultOf, hrole, status_of_mem hs he hc, Option.some.injEq, endStatus_eq_completed,
        success_resultOf]
      exact ⟨Iff.rfl, Iff.rfl⟩
    · -- Without `fail_fast` nothing raises the flag.
      intro hfast i role hrole
      refine mem_calls_of_flag he ?_ hrole
      cases hflag : w.failFlag with
      | true =>
          rw [(hs.flag hflag).1] at hfast
          cases hfast
      | false =>
          rfl

end End

/-! ## Every schedule -/

section Run

variable {b Ok} {ledger : σ} {schedule : List Nat}

theorem executeRolesParallel_eq_some {answer : RoleResult (List RoleRunResult)} {w : World σ} :
    b.executeRolesParallel ledger schedule = some (answer, w) ↔
      b.config.maxConcurrent ≤ maxPermits ∧
      (after (Pool.step b.turn) (b.start ledger) schedule).tasks.all (fun t => t.phase.isFinished) = true ∧
      verdict w.results = answer ∧ (after (Pool.step b.turn) (b.start ledger) schedule).shared = w := by
  unfold executeRolesParallel spawn
  by_cases hmax : b.config.maxConcurrent ≤ maxPermits
  · rw [if_pos hmax, Option.bind_some]
    by_cases hend : (after (Pool.step b.turn) (b.start ledger) schedule).tasks.all
        (fun t => t.phase.isFinished) = true
    · simp only [hend, if_true, Option.some.injEq, Prod.mk.injEq, hmax, true_and]
      constructor
      · rintro ⟨hanswer, rfl⟩
        exact ⟨hanswer, rfl⟩
      · rintro ⟨hanswer, rfl⟩
        exact ⟨hanswer, rfl⟩
    · simp [hend]
  · simp [hmax]

/-- The permits are those of the semaphore. -/
theorem permits_start : (b.start ledger).shared.permits +
    ((b.start ledger).tasks.map fun t => t.phase.held).sum = b.config.maxConcurrent := by
  have hwaiting : ∀ n ∈ (b.start ledger).tasks.map fun t => t.phase.held, n = 0 := by
    intro n hn
    simp only [start, List.map_map, List.mem_map] at hn
    obtain ⟨role, _, rfl⟩ := hn
    rfl
  rw [List.sum_eq_zero hwaiting]
  rfl

/-- Whatever has happened, the function can still come to its end. -/
theorem exists_answer (hmax : 1 ≤ b.config.maxConcurrent) (hpermits : b.config.maxConcurrent ≤ maxPermits)
    (ledger : σ) (schedule : List Nat) :
    ∃ rest answer, b.executeRolesParallel ledger (schedule ++ rest) = some answer := by
  have hsame := Pool.after_conserves b.turn World.permits (fun t : RoleTask => t.phase.held)
    (fun i t w t' w' hturn => (turn_counts hturn).1) (b.start ledger) schedule
  rw [permits_start] at hsame
  obtain ⟨rest, hrest⟩ := exists_finished (b := b) (hsame.symm ▸ hmax)
  rw [← after_append] at hrest
  exact ⟨rest, _, executeRolesParallel_eq_some.2 ⟨hpermits, hrest, rfl, rfl⟩⟩

/-- The tasks take at most nine turns each. -/
theorem length_schedule_le
    (h : EachStep (Pool.step b.turn) (fun p i => p.CanStep b.turn i) (b.start ledger) schedule) :
    schedule.length ≤ b.roles.length * 9 := by
  have hleft : ((b.start ledger).tasks.map fun t => t.phase.left).sum = b.roles.length * 9 := by
    have hnine : (b.start ledger).tasks.map (fun t => t.phase.left) = b.roles.map fun _ => 9 := by
      simp only [start, List.map_map]
      rfl
    rw [hnine, List.map_const', List.sum_replicate_nat]
  calc schedule.length
      ≤ (b.start ledger).turnsLeft (fun t => t.phase.left) :=
        Pool.length_le_turnsLeft (fun i t w t' w' hturn => (turn_counts hturn).2) h
    _ = b.roles.length * 9 := hleft

section Faultless

variable (hl : b.ops.Faultless Ok) (hids : Function.Injective b.runIds)
include hl hids

/-- A turn keeps the world sound and takes the task on; the other tasks stand where they stood. -/
theorem turn_keeps (i : Nat) (t : RoleTask) (w : World σ) (t' : RoleTask) (w' : World σ)
    (h : b.Sound Ok w) (ht : b.TaskStands i t w) (hturn : b.turn i t w = some (t', w')) :
    b.Sound Ok w' ∧ b.TaskStands i t' w' ∧
      ∀ j u, j ≠ i → b.TaskStands j u w → b.TaskStands j u w' := by
  obtain ⟨part, hmoves, hrole, hstands⟩ := turn_moves hl h ht hturn
  refine ⟨hmoves.sound, ⟨hrole ▸ ht.1, ?_⟩, ?_⟩
  · rw [hmoves.own, hrole]
    exact hstands
  · rintro j u hj ⟨hroleOf, hu⟩
    refine ⟨hroleOf, ?_⟩
    rw [hmoves.others _ fun heq => hj (hids heq)]
    exact hu.mono hmoves.flag

variable (hok : Ok ledger) (hfresh : ∀ i, b.ops.status ledger (b.runIds i) = none)
include hok hfresh

theorem holds_after_start (schedule : List Nat) : Pool.Holds (b.Sound Ok) b.TaskStands
    (after (Pool.step b.turn) (b.start ledger) schedule) := by
  refine Pool.holds_after (turn_keeps hl hids) ?_ schedule
  refine ⟨⟨hok, ?_, ?_, ?_⟩, ?_⟩
  · intro c hc
    cases hc
  · intro r hr
    cases hr
  · intro hflag
    cases hflag
  · intro i t ht
    simp only [start, List.getElem?_map, Option.map_eq_some_iff] at ht
    obtain ⟨role, hrole, rfl⟩ := ht
    refine ⟨hrole, ?_⟩
    change World.part b.ops (b.start ledger).shared (b.runIds i) = ⟨none, [], []⟩
    simp [World.part, start, hfresh]

/-- Where the function returns, the world is sound and all tasks have ended. -/
theorem ends_of_answer {answer : RoleResult (List RoleRunResult)} {w : World σ}
    (h : b.executeRolesParallel ledger schedule = some (answer, w)) :
    b.Sound Ok w ∧ b.AllEnded w := by
  obtain ⟨_, hend, _, rfl⟩ := executeRolesParallel_eq_some.1 h
  have hholds := holds_after_start hl hids hok hfresh schedule
  refine ⟨hholds.shared, ?_⟩
  intro i role hrole
  obtain ⟨hi, _⟩ := List.getElem?_eq_some_iff.1 hrole
  have hlength : i < (after (Pool.step b.turn) (b.start ledger) schedule).tasks.length := by
    rw [Pool.length_tasks_after]
    simpa [start] using hi
  obtain ⟨t, ht⟩ : ∃ t, (after (Pool.step b.turn) (b.start ledger) schedule).tasks[i]? = some t :=
    ⟨_, List.getElem?_eq_getElem hlength⟩
  obtain ⟨hroleOf, hstands⟩ := hholds.task i t ht
  obtain rfl : t.role = role := Option.some.inj (hroleOf.symm.trans hrole)
  have hfinished := List.all_eq_true.1 hend t (List.mem_of_getElem? ht)
  cases hphase : t.phase with
  | finished =>
      rw [hphase] at hstands
      exact hstands
  | _ =>
      rw [hphase] at hfinished
      cases hfinished

end Faultless

/-! ## The exact condition -/

section FailFast

variable {call : AgentRole × RunId} {e : RoleError}

/-- A task whose executor fails, from the beginning to the end: the flag is up and one call is made. -/
theorem turns_failing (hl : b.ops.Faultless Ok) {i : Nat} {role : AgentRole}
    (hok : Ok ledger) (hfresh : b.ops.status ledger (b.runIds i) = none)
    (hmax : 1 ≤ b.config.maxConcurrent) (hfast : b.config.failFast = true)
    (hfail : b.roleExecutor role (b.runIds i) = .error e) :
    ∃ w : World σ, w.failFlag = true ∧ w.calls = [(role, b.runIds i)] ∧
      Relation.ReflTransGen (fun x y => b.turn i x.1 x.2 = some y)
        (⟨role, .waiting⟩, (b.start ledger).shared) (⟨role, .finished⟩, w) := by
  obtain ⟨l₁, hcreate, hok₁, hl₁⟩ := hl.createRun b.specDigest (b.metadata role) hok hfresh
  have hrunning : b.ops.status l₁ (b.runIds i) = some .running := by
    rw [hl₁, Function.update_self]
  obtain ⟨l₂, hended, _, _⟩ := hl.failRun ⟨0, none, 0, false⟩ hok₁ hrunning
  let result := RoleRunResult.failed role (b.runIds i) e.toString
  let n := b.config.maxConcurrent - 1
  let calls := [(role, b.runIds i)]
  have hwaiting : b.turn i ⟨role, .waiting⟩ (b.start ledger).shared =
      some (⟨role, .admitted⟩, ⟨n, false, ledger, [], []⟩) := if_pos hmax
  have hstarting : b.turn i ⟨role, .starting⟩ ⟨n, false, ledger, [], []⟩ =
      some (⟨role, .created (b.runIds i)⟩, ⟨n, false, l₁, [], []⟩) := by
    simp only [turn, hcreate]
  have hexecuting : b.turn i ⟨role, .executing (b.runIds i)⟩ ⟨n, false, l₁, calls, []⟩ =
      some (⟨role, .executed (b.runIds i) (.error e)⟩, ⟨n, false, l₁, calls, []⟩) := by
    simp only [turn, hfail]
  have hexecuted : b.turn i ⟨role, .executed (b.runIds i) (.error e)⟩ ⟨n, false, l₁, calls, []⟩ =
      some (⟨role, .failing result⟩, ⟨n, false, l₂, calls, []⟩) := by
    simp only [turn, hended, result]
  have hfailing : b.turn i ⟨role, .failing result⟩ ⟨n, false, l₂, calls, []⟩ =
      some (⟨role, .publishing result⟩, ⟨n, true, l₂, calls, []⟩) := by
    simp only [turn, hfast, Bool.or_true]
  refine ⟨⟨n + 1, true, l₂, calls, [result]⟩, rfl, rfl, ?_⟩
  -- admitted, created, published and left: these turns depend on nothing
  exact .head hwaiting <| .head rfl <| .head hstarting <| .head rfl <| .head hexecuting <|
    .head hexecuted <| .head hfailing <| .head rfl <| .head rfl <| .refl

/-- With the flag up, tasks that have not begun are not executed. -/
theorem holds_idle {p : Pool RoleTask (World σ)}
    (h : Pool.Holds (fun w => w.failFlag = true ∧ w.calls = [call]) (fun _ t _ => t.phase.isIdle = true) p)
    (rest : List Nat) : (after (Pool.step b.turn) p rest).shared.calls = [call] := by
  refine (Pool.holds_after ?_ h rest).shared.2
  rintro i ⟨role, phase⟩ w t' w' ⟨hflag, hcalls⟩ hidle hturn
  suffices hboth : (w'.failFlag = true ∧ w'.calls = [call]) ∧ t'.phase.isIdle = true from
    ⟨hboth.1, hboth.2, fun _ _ _ hu => hu⟩
  cases phase with
  | waiting =>
      simp only [turn] at hturn
      split at hturn <;> cases hturn
      exact ⟨⟨hflag, hcalls⟩, rfl⟩
  | admitted =>
      simp only [turn, hflag, if_true] at hturn
      cases hturn
      exact ⟨⟨hflag, hcalls⟩, rfl⟩
  | leaving =>
      cases hturn
      exact ⟨⟨hflag, hcalls⟩, rfl⟩
  | finished =>
      cases hturn
  | _ =>
      cases hidle

end FailFast

/-- With `fail_fast` a failure that comes first keeps the other roles from being executed. -/
theorem exists_unreported (hl : b.ops.Faultless Ok) (hids : Function.Injective b.runIds) (hok : Ok ledger)
    (hfresh : ∀ i, b.ops.status ledger (b.runIds i) = none) (hroles : b.roles ≠ [])
    (hmax : 1 ≤ b.config.maxConcurrent) (hfast : b.config.failFast = true)
    {i j : Nat} {role other : AgentRole} {e : RoleError} (hrole : b.roles[i]? = some role)
    (hother : b.roles[j]? = some other) (hj : j ≠ i)
    (hfail : b.roleExecutor role (b.runIds i) = .error e) : ¬ b.Reports ledger := by
  intro h
  obtain ⟨w, hflag, hcalls, hturns⟩ := turns_failing hl hok (hfresh i) hmax hfast hfail
  have hstart : (b.start ledger).tasks[i]? = some ⟨role, .waiting⟩ := by
    simp [start, hrole]
  obtain ⟨schedule, hschedule⟩ := Pool.exists_after_of_turns hstart hturns
  -- After this run of one task, whatever comes makes no other call.
  have hidle : Pool.Holds (fun w => w.failFlag = true ∧ w.calls = [(role, b.runIds i)])
      (fun _ t _ => t.phase.isIdle = true) (after (Pool.step b.turn) (b.start ledger) schedule) := by
    rw [hschedule]
    refine ⟨⟨hflag, hcalls⟩, ?_⟩
    intro k t ht
    rcases List.mem_or_eq_of_mem_set (List.mem_of_getElem? ht) with hmem | rfl
    · obtain ⟨role', _, rfl⟩ := List.mem_map.1 hmem
      rfl
    · rfl
  obtain ⟨⟨rest, ⟨answer, w'⟩, hanswer⟩, _⟩ := h schedule
  have hreported := (h (schedule ++ rest)).2 answer w' hanswer
  obtain ⟨hs, he⟩ := ends_of_answer hl hids hok hfresh hanswer
  obtain ⟨_, _, rfl, hw'⟩ := executeRolesParallel_eq_some.1 hanswer
  have hone : w'.calls = [(role, b.runIds i)] := by
    rw [← hw', after_append]
    exact holds_idle hidle rest
  have hall := (reported_iff hs he hroles).1 hreported
  have hmem : (other, b.runIds j) ∈ w'.calls := by
    refine hall ?_ j other hother
    intro c hc
    rw [hone, List.mem_singleton] at hc
    subst hc
    exact ⟨e, hfail⟩
  rw [hone, List.mem_singleton] at hmem
  exact hj (hids (Prod.mk.inj hmem).2)

end Run

/-- The function can always come to its end and reports what it is to report, under every schedule, exactly
when the semaphore can be made and `fail_fast` is off, there is one role only, or no executor fails. -/
theorem executeRolesParallel_reports_iff {b : Batch σ} {Ok : σ → Prop} {ledger : σ}
    (hl : b.ops.Faultless Ok) (hids : Function.Injective b.runIds) (hok : Ok ledger)
    (hfresh : ∀ i, b.ops.status ledger (b.runIds i) = none) (hroles : b.roles ≠ [])
    (hmax : 1 ≤ b.config.maxConcurrent) :
    b.Reports ledger ↔ b.config.maxConcurrent ≤ maxPermits ∧
      (b.config.failFast = false ∨ b.roles.length = 1 ∨
        ∀ i role, b.roles[i]? = some role → ∃ output, b.roleExecutor role (b.runIds i) = .ok output) := by
  constructor
  · intro h
    obtain ⟨⟨_, ⟨answer, w⟩, hanswer⟩, _⟩ := h []
    refine ⟨(executeRolesParallel_eq_some.1 hanswer).1, ?_⟩
    by_contra hno
    push Not at hno
    obtain ⟨hfast, hlength, i, role, hrole, hnot⟩ := hno
    have hfast : b.config.failFast = true := by simpa using hfast
    obtain ⟨e, hfail⟩ : ∃ e, b.roleExecutor role (b.runIds i) = .error e := by
      cases hexec : b.roleExecutor role (b.runIds i) with
      | ok output =>
          exact absurd hexec (hnot output)
      | error e =>
          exact ⟨e, rfl⟩
    -- There is a second role.
    have htwo : 1 < b.roles.length := by
      have hpos := List.length_pos_of_ne_nil hroles
      omega
    obtain ⟨j, hjlt, hj⟩ : ∃ j, j < b.roles.length ∧ j ≠ i := by
      by_cases hi : i = 0
      · exact ⟨1, htwo, by omega⟩
      · exact ⟨0, by omega, Ne.symm hi⟩
    exact exists_unreported hl hids hok hfresh hroles hmax hfast hrole (List.getElem?_eq_getElem hjlt) hj
      hfail h
  · rintro ⟨hpermits, hcond⟩ schedule
    refine ⟨exists_answer hmax hpermits ledger schedule, ?_⟩
    intro answer w hanswer
    obtain ⟨hs, he⟩ := ends_of_answer hl hids hok hfresh hanswer
    obtain ⟨_, _, rfl, _⟩ := executeRolesParallel_eq_some.1 hanswer
    refine (reported_iff hs he hroles).2 ?_
    intro _ i role hrole
    cases hflag : w.failFlag with
    | false =>
        exact mem_calls_of_flag he hflag hrole
    | true =>
        obtain ⟨hfast, c, hc, e, hfail⟩ := hs.flag hflag
        obtain ⟨j, hroleOf, hid⟩ := hs.calls c hc
        rcases hcond with hoff | hone | hall
        · rw [hfast] at hoff
          cases hoff
        · -- The call that raised the flag is that of the only role.
          have hi := (List.getElem?_eq_some_iff.1 hrole).1
          have hj := (List.getElem?_eq_some_iff.1 hroleOf).1
          obtain rfl : j = i := by omega
          obtain rfl : c.1 = role := Option.some.inj (hroleOf.symm.trans hrole)
          rw [← hid]
          exact hc
        · obtain ⟨output, hexec⟩ := hall j c.1 hroleOf
          rw [hid, hexec] at hfail
          cases hfail

/-! ## Two roles that both fail -/

/-- A reviewer and a tester, one at a time, whose executor always fails. -/
def failingPair (failFast : Bool) : Batch (MemoryRunLedger Json) where
  ops := memoryLedger 0
  parentRunId := "parent-run-5"
  roles := [.reviewer, .tester]
  specDigest := .replicate '0' (by decide)
  config := { maxConcurrent := 1, failFast := failFast }
  roleExecutor := fun _ _ => .error (.parallelExecutionFailed "intentional failure")
  runIds := fun i => String.ofList (List.replicate i 'r')
  spareIds := fun i => String.ofList (List.replicate i 's')

/-- The same two in a database without runs. -/
def failingPairInDb (failFast : Bool) : Batch (Db Json) :=
  { failingPair failFast with ops := surrealLedger true 0 }

theorem runIds_failingPair_injective (failFast : Bool) :
    Function.Injective (failingPair failFast).runIds := by
  intro i j h
  have hlist : List.replicate i 'r' = List.replicate j 'r' := String.ofList_injective h
  simpa using congrArg List.length hlist

/-- Without `fail_fast` both are executed and the failure is reported, on either ledger. -/
theorem executeRolesParallel_reports_failingPair :
    (failingPair false).Reports ∅ ∧ (failingPairInDb false).Reports ⟨[], []⟩ := by
  refine ⟨?_, ?_⟩
  · exact (executeRolesParallel_reports_iff (memoryLedger_faultless 0) (runIds_failingPair_injective false)
      trivial (fun _ => rfl) (by decide) (by decide)).2 ⟨by decide, Or.inl rfl⟩
  · have hempty : HoldsRuns ⟨[], []⟩ := ⟨∅, fun _ => .unknown⟩
    exact (executeRolesParallel_reports_iff (b := failingPairInDb false) (surrealLedger_faultless true 0)
      (runIds_failingPair_injective false) hempty (fun _ => rfl) (by decide) (by decide)).2
        ⟨by decide, Or.inl rfl⟩

/-- With `fail_fast` the reviewer fails first; the tester, who was never executed, is said to have failed. -/
theorem not_reports_failFast :
    ¬ ∀ b : Batch (MemoryRunLedger Json), b.ops.Faultless (fun _ => True) →
      Function.Injective b.runIds → b.roles ≠ [] → 1 ≤ b.config.maxConcurrent → b.Reports ∅ := by
  intro h
  have hreports := h (failingPair true) (memoryLedger_faultless 0) (runIds_failingPair_injective true)
    (by decide) (by decide)
  let schedule := [0, 0, 0, 0, 0, 0, 0, 0, 0, 1, 1, 1]
  have hrun : ((failingPair true).executeRolesParallel ∅ schedule).map
      (fun x => (x.1.toOption, x.2.calls)) = some (none, [(.reviewer, "")]) := by
    decide +kernel
  obtain ⟨⟨answer, w⟩, hanswer, hseen⟩ := Option.map_eq_some_iff.1 hrun
  obtain ⟨hnone, hcalls⟩ := Prod.mk.inj hseen
  have herror : ∃ e, answer = .error e := by
    cases answer with
    | ok results =>
        cases hnone
    | error e =>
        exact ⟨e, rfl⟩
  have htester := (((hreports schedule).2 answer w hanswer).error_iff.1 herror 1 .tester rfl).1
  have hcalls : w.calls = [(.reviewer, "")] := hcalls
  rw [hcalls] at htester
  exact absurd htester (by decide)

end Batch

end RoleOrchestration
end Aivcs
