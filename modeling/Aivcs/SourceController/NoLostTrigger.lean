import Aivcs.Lib.Log
import Aivcs.Lib.Run
import Aivcs.SourceController.Reconcile

/-!
# SourceController.NoLostTrigger — the status stands for an acknowledged event

The head is written into the status after its event was acknowledged, so that no failure between the two
loses a build.  But the status does not say which branch of which repository the revision is of.  An edit
that moves the spec to `main` keeps it, and so does a patch by a reconcile the spec was edited under: a
revision nobody was told of then counts as known, and the build is lost as soon as the head of `main` is
that revision.  `no_lost_trigger_when_settled` says that nothing else loses a build.
-/

namespace Aivcs
namespace SourceController

open Aivcs.Lib

/-! ## What a reconcile may send -/

abbrev ControllerHistory : Type := History ControllerOp ControllerOp.Ans

/-- The repository of an event. -/
def AivcsRepositorySpec.repository (spec : AivcsRepositorySpec) : String :=
  spec.organization ++ "/" ++ spec.repo

def MergeEventPayload.IsFor (payload : MergeEventPayload) (repository revision : String) : Prop :=
  payload.repository = repository ∧ payload.commitSha = revision

instance (payload : MergeEventPayload) (repository revision : String) :
    Decidable (payload.IsFor repository revision) :=
  inferInstanceAs (Decidable (_ ∧ _))

/-- The receiver has answered that it accepts the event. -/
def Accepted (h : ControllerHistory) (payload : MergeEventPayload) : Prop :=
  ∃ url signature status text, ⟨.post url signature payload, .ok (status, text)⟩ ∈ h ∧
    isSuccess status

/-- A reconcile of `main` writes a revision whose event was accepted. -/
def Sends (obj : AivcsRepository) (h : ControllerHistory) : ControllerOp → Prop
  | .patchStatus _ _ revision => obj.spec.branch = defaultBranch →
      ∃ payload, Accepted h payload ∧ payload.IsFor obj.spec.repository revision
  | _ => True

variable {ctx : ContextData}

/-- An emission that succeeds was accepted. -/
theorem obeys_emit (obj : AivcsRepository) (emitter : MergeEmitter) (payload : MergeEventPayload)
    (h : ControllerHistory) :
    (emitter.emit ctx payload).Obeys (Sends obj)
      (fun h r => ∀ text, r = .ok text → Accepted h payload) h := by
  refine ⟨trivial, fun answer => ?_⟩
  rcases answer with e | ⟨status, text⟩
  · intro _ hok
    cases hok
  · dsimp only [Proc.bind_ret]
    by_cases hsuccess : (isSuccess status || status = 202) = true
    · rw [if_pos hsuccess]
      -- 202 is a success like any other.
      have hstatus : isSuccess status = true := by
        rcases Bool.or_eq_true_iff.1 hsuccess with hs | hs
        · exact hs
        · rw [of_decide_eq_true hs]
          rfl
      intro _ _
      exact ⟨_, _, status, text, List.mem_append_right _ List.mem_cons_self, hstatus⟩
    · rw [if_neg hsuccess]
      intro _ hok
      cases hok

/-- Where the program goes on, a head of `main` has an accepted event. -/
theorem obeys_emitAdvance (hemitter : ctx.mergeEmitter.isSome) (obj : AivcsRepository)
    (head : String) (h : ControllerHistory) :
    (emitAdvance ctx obj.spec head true).Obeys (Sends obj)
      (fun h r => r = .ok () → obj.spec.branch = defaultBranch →
        ∃ payload, Accepted h payload ∧ payload.IsFor obj.spec.repository head) h := by
  rcases Option.isSome_iff_exists.1 hemitter with ⟨emitter, hsome⟩
  unfold emitAdvance
  by_cases hmain : obj.spec.branch = defaultBranch
  · rw [if_pos (by simp [shouldEmit, hmain]), hsome]
    dsimp only
    cases hpayload : MergeEventPayload.fromMainAdvance obj.spec.organization obj.spec.repo head with
    | error e =>
        intro hok
        cases hok
    | ok payload =>
        refine Proc.Obeys.bind ((obeys_emit obj emitter payload h).mono ?_)
        rintro h (e | text) haccepted
        · intro hok
          cases hok
        · intro _ _
          exact ⟨payload, haccepted text rfl, MergeEventPayload.of_fromMainAdvance hpayload⟩
  · rw [if_neg (by simp [shouldEmit, hmain])]
    intro _ hbranch
    exact absurd hbranch hmain

theorem obeys_reconcileHead (hemitter : ctx.mergeEmitter.isSome) (obj : AivcsRepository)
    (head : String) (h : ControllerHistory) :
    (reconcileHead ctx obj head).Obeys (Sends obj) (fun _ _ => True) h := by
  unfold reconcileHead
  dsimp only
  by_cases hadvanced : obj.revision = some head
  · rw [if_pos (by simp [hadvanced])]
    trivial
  · have htrue : decide (obj.revision ≠ some head) = true := by simp [hadvanced]
    rw [htrue, if_neg (by simp)]
    refine Proc.Obeys.andThen ((obeys_emitAdvance hemitter obj head h).mono ?_)
    rintro h (e | done) haccepted
    · trivial
    · refine ⟨haccepted rfl, fun answer => ?_⟩
      cases answer <;> trivial

theorem resolveBranchHead_calls (repo branch : String) :
    (resolveBranchHead ctx repo branch).Calls fun op => ∃ url, op = .get url := by
  refine ⟨⟨_, rfl⟩, fun answer => ?_⟩
  rcases answer with e | ⟨status, body⟩
  · trivial
  · dsimp only [Proc.bind_ret]
    split_ifs
    · trivial
    · trivial
    · cases body <;> trivial

theorem obeys_reconcile (hemitter : ctx.mergeEmitter.isSome) (obj : AivcsRepository) :
    (reconcile ctx obj).Obeys (Sends obj) (fun _ _ => True) [] := by
  refine Proc.Obeys.andThen ((resolveBranchHead_calls _ _).obeys ?_ ?_ [])
  · rintro h op ⟨url, rfl⟩
    trivial
  · rintro h (e | (_ | head))
    · trivial
    · trivial
    · exact obeys_reconcileHead hemitter obj head h

/-! ## What holds along a run -/

namespace State

/-- A merge event for the revision has been acknowledged. -/
def Acknowledged (s : State) (repository revision : String) : Prop :=
  ∃ payload ∈ s.acknowledged, payload.IsFor repository revision

instance (s : State) (repository revision : String) :
    Decidable (s.Acknowledged repository revision) :=
  inferInstanceAs (Decidable (∃ payload ∈ s.acknowledged, payload.IsFor repository revision))

/-- No build is lost: where the next reconcile takes the head of `main` for known, its event has been
acknowledged. -/
def NotLost (ctx : ContextData) (s : State) : Prop :=
  s.object.spec.branch = defaultBranch → ∀ head, s.object.revision = some head →
    s.heads (branchUrl ctx s.object.spec.repo s.object.spec.branch) = some head →
    s.Acknowledged s.object.spec.repository head

/-- The patch the running reconcile is about to send, with the object it was started for. -/
def pendingPatch? (s : State) : Option (AivcsRepository × String) :=
  match s.running with
  | some ⟨obj, .call (.patchStatus _ _ revision) _⟩ => some (obj, revision)
  | _ => none

/-- An edit to `main` finds a status that is empty or holds a revision acknowledged for the repository the
spec then names; a status is patched, while the spec is on `main`, by a reconcile that was started for that
repository on `main`, or with a revision acknowledged for it. -/
def Prepared (s : State) : Event → Prop
  | .edit spec => spec.branch = defaultBranch →
      ∀ revision, s.object.revision = some revision → s.Acknowledged spec.repository revision
  | .call fate =>
      ∀ patch, s.pendingPatch? = some patch → fate.executes = true →
        s.object.spec.branch = defaultBranch →
          (patch.1.spec.branch = defaultBranch ∧
            patch.1.spec.repository = s.object.spec.repository) ∨
          s.Acknowledged s.object.spec.repository patch.2
  | _ => True

instance (s : State) : ∀ e, Decidable (s.Prepared e)
  | .edit spec => inferInstanceAs (Decidable (spec.branch = defaultBranch →
      ∀ revision ∈ s.object.revision, s.Acknowledged spec.repository revision))
  | .call fate => inferInstanceAs (Decidable (∀ patch ∈ s.pendingPatch?, fate.executes = true →
      s.object.spec.branch = defaultBranch → (patch.1.spec.branch = defaultBranch ∧
        patch.1.spec.repository = s.object.spec.repository) ∨
          s.Acknowledged s.object.spec.repository patch.2))
  | .moveHead _ _ | .start | .crash => inferInstanceAs (Decidable True)

/-- The revision of a spec on `main` has been acknowledged, and the running reconcile obeys, with a history
of events that were. -/
structure Settled (s : State) : Prop where
  revision : s.object.spec.branch = defaultBranch →
    ∀ revision, s.object.revision = some revision →
      s.Acknowledged s.object.spec.repository revision
  running : ∀ run, s.running = some run → ∃ h, run.program.Obeys (Sends run.obj) (fun _ _ => True) h ∧
    ∀ payload, Accepted h payload → payload ∈ s.acknowledged

theorem Settled.notLost {s : State} (h : s.Settled) : s.NotLost ctx :=
  fun hmain head hrevision _ => h.revision hmain head hrevision

theorem acknowledged_deliver {s : State} {op : ControllerOp} {fate : Fate}
    {payload : MergeEventPayload} (h : payload ∈ s.acknowledged) :
    payload ∈ (s.deliver op fate).2.acknowledged := by
  have hexec : payload ∈ (exec op s).2.acknowledged := by
    cases op with
    | get url =>
        exact h
    | post url signature p =>
        exact List.mem_cons_of_mem _ h
    | patchStatus ns name head =>
        exact h
  cases fate with
  | answered =>
      exact hexec
  | lost message =>
      exact hexec
  | _ =>
      exact h

/-- What the receiver is told to have accepted it has acknowledged. -/
theorem acknowledged_of_accepted {s : State} {op : ControllerOp} {fate : Fate}
    {payload : MergeEventPayload} (h : Accepted [⟨op, (s.deliver op fate).1⟩] payload) :
    payload ∈ (s.deliver op fate).2.acknowledged := by
  rcases h with ⟨url, signature, status, text, hmem, hok⟩
  have heq := List.mem_singleton.1 hmem
  injection heq with hop hans
  subst hop
  have hans := eq_of_heq hans
  cases fate with
  | answered =>
      exact List.mem_cons_self
  | rejected status' message hfailure =>
      -- The status that came back is the one of the rejection.
      obtain ⟨rfl, -⟩ := Prod.mk.inj (Except.ok.inj hans)
      rw [hok] at hfailure
      cases hfailure
  | refused message =>
      cases hans
  | lost message =>
      cases hans

/-- A call leaves the object, unless it is a patch that is executed. -/
theorem object_deliver (s : State) (op : ControllerOp) (fate : Fate) :
    (s.deliver op fate).2.object = s.object ∨
    ∃ ns name revision, op = .patchStatus ns name revision ∧ fate.executes = true ∧
      (s.deliver op fate).2.object = { s.object with status := some ⟨some revision⟩ } := by
  cases op with
  | patchStatus ns name revision =>
      cases fate with
      | answered =>
          exact Or.inr ⟨ns, name, revision, rfl, rfl, rfl⟩
      | lost message =>
          exact Or.inr ⟨ns, name, revision, rfl, rfl, rfl⟩
      | _ =>
          exact Or.inl rfl
  | _ =>
      cases fate <;> exact Or.inl rfl

theorem Acknowledged.deliver {s : State} {op : ControllerOp} {fate : Fate}
    {repository revision : String} (h : s.Acknowledged repository revision) :
    (s.deliver op fate).2.Acknowledged repository revision := by
  rcases h with ⟨payload, hmem, hfor⟩
  exact ⟨payload, acknowledged_deliver hmem, hfor⟩

/-- What a running reconcile of `main` is about to write has been acknowledged. -/
theorem Settled.of_pending_patch {s : State} (h : s.Settled) {obj : AivcsRepository}
    {ns name revision : String}
    {next : Except String Unit → ControllerProc (Except ReconcileError Action)}
    (hrunning : s.running = some ⟨obj, .call (.patchStatus ns name revision) next⟩)
    (hmain : obj.spec.branch = defaultBranch) : s.Acknowledged obj.spec.repository revision := by
  rcases h.running _ hrunning with ⟨hist, hobeys, hacknowledged⟩
  rcases hobeys.1 hmain with ⟨payload, haccepted, hfor⟩
  exact ⟨payload, hacknowledged payload haccepted, hfor⟩

theorem Settled.call {s : State} (h : s.Settled) {obj : AivcsRepository} {op : ControllerOp}
    {next : op.Ans → ControllerProc (Except ReconcileError Action)}
    (hrunning : s.running = some ⟨obj, .call op next⟩) {fate : Fate}
    (hp : s.Prepared (.call fate)) : (s.step ctx (.call fate)).Settled := by
  have hstep : s.step ctx (.call fate) = { (s.deliver op fate).2 with
      running := some ⟨obj, next (s.deliver op fate).1⟩ } := by
    simp only [State.step, hrunning]
  rw [hstep]
  refine ⟨?_, ?_⟩
  · rcases s.object_deliver op fate with hsame | ⟨ns, name, revision, rfl, hexecutes, hpatched⟩
    · dsimp only
      rw [hsame]
      intro hmain revision hrevision
      exact (h.revision hmain revision hrevision).deliver
    · dsimp only
      rw [hpatched]
      intro hmain revision' hrevision
      obtain rfl : revision = revision' := Option.some.inj hrevision
      have hpending : s.pendingPatch? = some (obj, revision) := by
        simp only [pendingPatch?, hrunning]
      -- The reconcile that patches is of the spec's repository, or nothing depends on it.
      rcases hp _ hpending hexecutes hmain with ⟨hbranch, hrepository⟩ | hknown
      · have hpending := h.of_pending_patch hrunning hbranch
        rw [hrepository] at hpending
        exact hpending.deliver
      · exact hknown.deliver
  · rintro run hrun
    obtain rfl := Option.some.inj hrun
    rcases h.running _ hrunning with ⟨hist, hobeys, hacknowledged⟩
    refine ⟨hist ++ [⟨op, (s.deliver op fate).1⟩], hobeys.2 _, ?_⟩
    rintro payload ⟨url, signature, status, text, hmem, hok⟩
    rcases List.mem_append.1 hmem with hold | hnew
    · exact acknowledged_deliver (hacknowledged payload ⟨url, signature, status, text, hold, hok⟩)
    · exact acknowledged_of_accepted ⟨url, signature, status, text, hnew, hok⟩

theorem Settled.step (hemitter : ctx.mergeEmitter.isSome) {s : State} {e : Event} (h : s.Settled)
    (hp : s.Prepared e) : (s.step ctx e).Settled := by
  cases e with
  | moveHead url head =>
      exact ⟨h.revision, h.running⟩
  | edit spec =>
      exact ⟨hp, h.running⟩
  | start =>
      cases hrunning : s.running with
      | some run =>
          have hsame : s.step ctx .start = s := by simp only [State.step, hrunning]
          rw [hsame]
          exact h
      | none =>
          simp only [State.step, hrunning]
          refine ⟨h.revision, fun run hrun => ?_⟩
          obtain rfl := Option.some.inj hrun
          refine ⟨[], obeys_reconcile hemitter s.object, ?_⟩
          rintro payload ⟨_, _, _, _, hmem, _⟩
          cases hmem
  | crash =>
      exact ⟨h.revision, fun run hrun => by cases hrun⟩
  | call fate =>
      cases hrunning : s.running with
      | none =>
          have hsame : s.step ctx (.call fate) = s := by simp only [State.step, hrunning]
          rw [hsame]
          exact h
      | some run =>
          rcases run with ⟨obj, result | ⟨op, next⟩⟩
          · have hdone : s.step ctx (.call fate) = { s with running := none } := by
              simp only [State.step, hrunning]
            rw [hdone]
            exact ⟨h.revision, fun run hrun => by cases hrun⟩
          · exact h.call hrunning hp

/-- A repository with an empty status, no event acknowledged and no reconcile running. -/
def init (object : AivcsRepository) (heads : String → Option String) : State :=
  { object := { object with status := none }, heads := heads, acknowledged := [], running := none }

theorem settled_init (object : AivcsRepository) (heads : String → Option String) :
    (init object heads).Settled :=
  ⟨fun _ revision hrevision => (by cases hrevision), fun run hrun => (by cases hrun)⟩

/-- A revision on `main` that was not acknowledged is lost once it is the head. -/
theorem lost_of_not_acknowledged (ctx : ContextData) (s : State) (hmain : s.object.spec.branch = defaultBranch)
    {revision : String} (hrevision : s.object.revision = some revision)
    (hunknown : ¬ s.Acknowledged s.object.spec.repository revision) :
    ¬ (s.step ctx (.moveHead (branchUrl ctx s.object.spec.repo s.object.spec.branch)
      (some revision))).NotLost ctx := by
  intro h
  exact hunknown (h hmain revision hrevision (Function.update_self _ _ _))

/-- After a step that is not prepared, one move of the head loses a build. -/
theorem exists_lost_of_not_prepared (ctx : ContextData) {s : State} {e : Event} (hp : ¬ s.Prepared e) :
    ∃ url head, ¬ ((s.step ctx e).step ctx (.moveHead url head)).NotLost ctx := by
  cases e with
  | edit spec =>
      simp only [Prepared, not_forall] at hp
      rcases hp with ⟨hmain, revision, hrevision, hunknown⟩
      exact ⟨_, _, lost_of_not_acknowledged ctx (s.step ctx (.edit spec)) hmain hrevision hunknown⟩
  | call fate =>
      simp only [Prepared, not_forall, not_or] at hp
      rcases hp with ⟨⟨obj, revision⟩, hpending, hexecutes, hmain, -, hunknown⟩
      unfold pendingPatch? at hpending
      split at hpending
      · rename_i obj' ns name revision' next hrunning
        cases hpending
        have hstep : (s.step ctx (.call fate)) = { s with
            object := { s.object with status := some ⟨some revision⟩ }
            running := some ⟨obj, next (s.deliver (.patchStatus ns name revision) fate).1⟩ } := by
          simp only [State.step, hrunning]
          cases fate <;> first | rfl | cases hexecutes
        have hlost := lost_of_not_acknowledged ctx (s.step ctx (.call fate))
        rw [hstep] at hlost ⊢
        exact ⟨_, _, hlost hmain rfl hunknown⟩
      · cases hpending
  | _ =>
      exact absurd trivial hp

end State

/-- In every run in which the spec comes to `main` only with an acknowledged revision in its status, no
build is lost; after any other step one move of the head loses one. -/
theorem no_lost_trigger_when_settled (ctx : ContextData) (hemitter : ctx.mergeEmitter.isSome)
    (object : AivcsRepository) (heads : String → Option String) (events : List Event)
    (h : EachStep (State.step ctx) State.Prepared (State.init object heads) events) :
    Always (State.step ctx) (State.NotLost ctx) (State.init object heads) events ∧
    ∀ e, ¬ (after (State.step ctx) (State.init object heads) events).Prepared e →
      ∃ url head, ¬ (after (State.step ctx) (State.init object heads)
        (events ++ [e, .moveHead url head])).NotLost ctx := by
  have hsettled := always_of_eachStep (fun _ _ hs hp => hs.step hemitter hp)
    (State.settled_init object heads) h
  refine ⟨fun pre hpre => (hsettled pre hpre).notLost, fun e hp => ?_⟩
  rcases State.exists_lost_of_not_prepared ctx hp with ⟨url, head, hlost⟩
  refine ⟨url, head, ?_⟩
  rw [after_append]
  exact hlost

/-- An emitter whose secret is 32 zeros, and the signature of the event for `c1`. -/
def demoContext : ContextData where
  aivcsdUrl := "http://aivcsd"
  mergeEmitter := some ⟨"http://og-builds/events", List.replicate 32 48⟩
  hmacHex _ _ := "5a12517a6ec1f65af8692d84daf7993dabef61cceed9928aad2d3fce196fc250"

def demoSpec (branch : String) : AivcsRepositorySpec :=
  { organization := "aivcs", repo := "infra", branch := branch, intervalSeconds := 30 }

/-- A repository on the branch, whose head is `c1`; the other branches have none. -/
def demoInit (branch : String) : State :=
  State.init { ns := none, name := "infra", spec := demoSpec branch, status := none } fun url =>
    if url = branchUrl demoContext "infra" branch then some "c1" else none

/-- A reconcile that gets to its end when its calls meet these fates. -/
def reconcileWith (fates : List Fate) : List Event :=
  .start :: fates.map .call

/-- A crash after the event, a refused event, an event whose answer is lost, a refused patch, and a
reconcile that succeeds; then the spec leaves `main` and comes back. -/
def keptRun : List Event :=
  reconcileWith [.answered, .answered] ++ .crash ::
    reconcileWith [.answered, .refused "timeout", .answered] ++
    reconcileWith [.answered, .lost "timeout", .answered] ++
    reconcileWith [.answered, .answered, .refused "conflict", .answered] ++
    reconcileWith [.answered, .answered, .answered, .answered] ++
    [.edit (demoSpec "dev"), .edit (demoSpec "main")]

theorem no_lost_trigger_when_settled_demo :
    Always (State.step demoContext) (State.NotLost demoContext) (demoInit "main") keptRun ∧
      (after (State.step demoContext) (demoInit "main") keptRun).object.revision = some "c1" :=
  ⟨(no_lost_trigger_when_settled demoContext rfl _ _ keptRun (by decide +kernel)).1,
    by decide +kernel⟩

/-- The head of `dev` is reconciled, the spec is edited to `main`, and `main` is moved to that head. -/
def lostRun : List Event :=
  reconcileWith [.answered, .answered, .answered] ++
    [.edit (demoSpec "main"), .moveHead (branchUrl demoContext "infra" "main") (some "c1")]

/-- No event has been acknowledged, and the head of `main` counts as known. -/
theorem trigger_lost_after_edit :
    ¬ Always (State.step demoContext) (State.NotLost demoContext) (demoInit "dev") lostRun := by
  intro h
  have hknown := h.final (by decide +kernel) "c1" (by decide +kernel) (by decide +kernel)
  revert hknown
  decide +kernel

end SourceController
end Aivcs
