import Aivcs.Hitl.Engine
import Aivcs.Lib.Run

/-!
# Hitl.Runs — checkpoints along runs of votes, evaluations and interventions

A run mixes three ways into one status.  `step_vote`, `step_evaluate` and `step_intervene` say once what
each of them can do; everything below is read off them:

* `decided_iff_not_reopened` — a decided checkpoint stays decided exactly when no pause and no edit
  reaches it: votes and evaluations look at `isTerminal`, interventions do not;
* `approved_resumed_iff` — an approval comes after the operator's `continue` exactly when no
  evaluation finds a paused checkpoint ready: the evaluation treats paused as pending.
-/

namespace Aivcs
namespace Hitl

open Aivcs.Lib Aivcs.State

/-! ## What a step does -/

namespace Session

/-- An evaluation at `now` approves, apart from what the status says. -/
def Ready (s : Session) (now : Timestamp) : Prop :=
  s.checkpoint.isExpiredAt now = false ∧ (∀ v ∈ s.votes, v.decision.isBlocking = false) ∧
    (s.checkpoint.riskTier.minApprovals ≤ approvalCount s.votes ∧
        0 < s.checkpoint.riskTier.minApprovals ∨
      s.checkpoint.riskTier.requiresApproval = false)

/-- A vote is refused, finds the checkpoint expired, or is accepted. -/
theorem step_vote (s : Session) (v : ApprovalVote) (now : Timestamp) :
    s.step (.vote v now) = s ∨
      s.status.isTerminal = false ∧
        s.step (.vote v now) = ⟨{ s.checkpoint with status := .expired }, s.votes⟩ ∨
      s.status.isTerminal = false ∧ v.checkpointId = s.checkpoint.checkpointId ∧
        (∀ w ∈ s.votes, w.voter ≠ v.voter) ∧
        s.step (.vote v now) = ⟨s.checkpoint, s.votes ++ [v]⟩ := by
  -- The checks in the order of `submit_vote`.
  by_cases hid : v.checkpointId = s.checkpoint.checkpointId
  · cases hterm : s.checkpoint.status.isTerminal with
    | true =>
        exact .inl (by simp [step, submitVote, hid, hterm])
    | false =>
        cases hexp : s.checkpoint.isExpiredAt now with
        | true =>
            exact .inr (.inl ⟨hterm, by simp [step, submitVote, hid, hterm, hexp]⟩)
        | false =>
            by_cases hdup : ∃ w ∈ s.votes, w.voter = v.voter
            · exact .inl (by simp [step, submitVote, hid, hterm, hexp, hdup])
            · refine .inr (.inr ⟨hterm, hid, by simpa using hdup, ?_⟩)
              simp [step, submitVote, hid, hterm, hexp, hdup]
  · exact .inl (by simp [step, submitVote, hid])

end Session

/-- An evaluation approves exactly an undecided checkpoint that is ready. -/
theorem evaluateCheckpoint_eq_approved {s : Session} {now : Timestamp} :
    evaluateCheckpoint s.checkpoint s.votes now = some .approved ↔
      s.status.isTerminal = false ∧ s.Ready now := by
  cases hterm : s.checkpoint.status.isTerminal with
  | true =>
      simp [evaluateCheckpoint, Session.status, hterm]
  | false =>
      cases hexp : s.checkpoint.isExpiredAt now with
      | true =>
          simp [evaluateCheckpoint, Session.Ready, hterm, hexp]
      | false =>
          cases hblock : s.votes.find? fun v => v.decision.isBlocking with
          | some v =>
              have hv := List.find?_some hblock
              have hmem := List.mem_of_find?_eq_some hblock
              simp only [evaluateCheckpoint, hterm, hexp, hblock, Session.Ready]
              constructor
              · intro h
                cases h
              · rintro ⟨-, -, hnone, -⟩
                simp [hnone v hmem] at hv
          | none =>
              have hnone : ∀ v ∈ s.votes, v.decision.isBlocking = false := by
                simpa using hblock
              by_cases hquorum : s.checkpoint.riskTier.minApprovals ≤ approvalCount s.votes ∧
                  0 < s.checkpoint.riskTier.minApprovals
              · simp [evaluateCheckpoint, Session.Ready, Session.status, hterm, hexp, hblock, hquorum]
                exact hnone
              · simp [evaluateCheckpoint, Session.Ready, Session.status, hterm, hexp, hblock, hquorum]
                exact fun _ => hnone

/-- An evaluation leads to decided statuses only. -/
theorem evaluateCheckpoint_ne_of_not_terminal {checkpoint : ApprovalCheckpoint}
    {votes : List ApprovalVote} {now : Timestamp} {status : CheckpointStatus}
    (hstatus : status.isTerminal = false) :
    evaluateCheckpoint checkpoint votes now ≠ some status := by
  intro heval
  unfold evaluateCheckpoint at heval
  split at heval
  · cases heval
  · split at heval
    · cases heval
      cases hstatus
    · split at heval
      · cases heval
        cases hstatus
      · dsimp only at heval
        split at heval
        · cases heval
          cases hstatus
        · split at heval
          · cases heval
            cases hstatus
          · cases heval

namespace Session

/-- An evaluation changes nothing, refuses an undecided checkpoint, or approves one that is ready. -/
theorem step_evaluate (s : Session) (now : Timestamp) :
    s.step (.evaluate now) = s ∨
      s.status.isTerminal = false ∧ ∃ status : CheckpointStatus,
        (status.isTerminal ∧ status.allowsProceed = false ∨ status = .approved ∧ s.Ready now) ∧
        s.step (.evaluate now) = ⟨{ s.checkpoint with status := status }, s.votes⟩ := by
  cases heval : evaluateCheckpoint s.checkpoint s.votes now with
  | none =>
      exact .inl (by simp [step, heval])
  | some status =>
      have hterm : s.status.isTerminal = false := by
        by_contra hterm
        simp only [Bool.not_eq_false] at hterm
        simp [evaluateCheckpoint, show s.checkpoint.status.isTerminal = true from hterm] at heval
      refine .inr ⟨hterm, status, ?_, by simp [step, heval]⟩
      cases status with
      | approved =>
          exact .inr ⟨rfl, (evaluateCheckpoint_eq_approved.1 heval).2⟩
      | rejected reason =>
          exact .inl ⟨rfl, rfl⟩
      | expired =>
          exact .inl ⟨rfl, rfl⟩
      | pending =>
          exact absurd heval (evaluateCheckpoint_ne_of_not_terminal rfl)
      | paused =>
          exact absurd heval (evaluateCheckpoint_ne_of_not_terminal rfl)

/-- An intervention holds the checkpoint, resumes a paused one, aborts it, or changes nothing. -/
theorem step_intervene (s : Session) (action : InterventionAction) :
    (action = .pause ∨ ∃ summary, action = .edit summary) ∧
        s.step (.intervene action) = ⟨{ s.checkpoint with status := .paused }, s.votes⟩ ∨
      action = .continue ∧ s.status = .paused ∧
        s.step (.intervene action) = ⟨{ s.checkpoint with status := .pending }, s.votes⟩ ∨
      action = .continue ∧ s.status ≠ .paused ∧ s.step (.intervene action) = s ∨
      (∃ reason, action = .abort reason ∧
        s.step (.intervene action) =
          ⟨{ s.checkpoint with status := .rejected ("aborted: " ++ reason) }, s.votes⟩) := by
  cases action with
  | pause =>
      exact .inl ⟨.inl rfl, rfl⟩
  | edit summary =>
      exact .inl ⟨.inr ⟨summary, rfl⟩, rfl⟩
  | «continue» =>
      by_cases hpaused : s.checkpoint.status = .paused
      · exact .inr (.inl ⟨rfl, hpaused, by simp [step, applyIntervention, hpaused]⟩)
      · exact .inr (.inr (.inl ⟨rfl, hpaused, by simp [step, applyIntervention, hpaused]⟩))
  | abort reason =>
      exact .inr (.inr (.inr ⟨reason, rfl, rfl⟩))

end Session

/-! ## Decided checkpoints -/

/-- A decided checkpoint stays decided, and a refused one never lets the execution proceed. -/
def StaysDecided (a b : Session) : Prop :=
  (a.status.isTerminal → b.status.isTerminal) ∧
    ((∃ reason, a.status = .rejected reason) ∨ a.status = .expired →
      b.status.allowsProceed = false)

/-- A decided checkpoint keeps the very decision. -/
def KeepsDecision (a b : Session) : Prop :=
  a.status.isTerminal → b.status = a.status

/-- The step holds a decided checkpoint. -/
def Reopens (s : Session) (i : HitlStep) : Prop :=
  s.status.isTerminal ∧ (i = .intervene .pause ∨ ∃ summary, i = .intervene (.edit summary))

/-- The step aborts a decided checkpoint, other than one aborted with the same reason before. -/
def Overrules (s : Session) (i : HitlStep) : Prop :=
  s.status.isTerminal ∧ ∃ reason, i = .intervene (.abort reason) ∧
    s.status ≠ .rejected ("aborted: " ++ reason)

theorem refused_iff {status : CheckpointStatus} :
    (∃ reason, status = .rejected reason) ∨ status = .expired ↔
      status.isTerminal ∧ status.allowsProceed = false := by
  cases status <;> simp [CheckpointStatus.isTerminal, CheckpointStatus.allowsProceed]

/-- A step that does not hold a decided checkpoint keeps its decision or aborts it. -/
theorem status_step_of_terminal {s : Session} {i : HitlStep} (hterm : s.status.isTerminal)
    (hopen : ¬ Reopens s i) :
    (s.step i).status = s.status ∨
      ∃ reason, i = .intervene (.abort reason) ∧
        (s.step i).status = .rejected ("aborted: " ++ reason) := by
  cases i with
  | vote v now =>
      rcases s.step_vote v now with h | ⟨hno, _⟩ | ⟨hno, _⟩
      · exact .inl (by rw [h])
      · simp [hno] at hterm
      · simp [hno] at hterm
  | evaluate now =>
      rcases s.step_evaluate now with h | ⟨hno, _⟩
      · exact .inl (by rw [h])
      · simp [hno] at hterm
  | intervene action =>
      rcases s.step_intervene action with ⟨hhold, _⟩ | ⟨_, hpaused, _⟩ | ⟨_, _, h⟩ | ⟨reason, rfl, h⟩
      · -- An intervention does not look at `isTerminal`: this is the way back.
        exact absurd ⟨hterm, by simpa using hhold⟩ hopen
      · simp [hpaused, CheckpointStatus.isTerminal] at hterm
      · exact .inl (by rw [h])
      · exact .inr ⟨reason, rfl, by rw [h]; rfl⟩

/-- What holds a decided checkpoint leaves it undecided. -/
theorem Reopens.status_step {s : Session} {i : HitlStep} (h : Reopens s i) :
    (s.step i).status = .paused := by
  rcases h with ⟨_, rfl | ⟨summary, rfl⟩⟩
  · rfl
  · rfl

theorem staysDecided_step_iff (s : Session) (i : HitlStep) :
    StaysDecided s (s.step i) ↔ ¬ Reopens s i := by
  constructor
  · rintro ⟨hdecided, _⟩ hopen
    have hterm := hdecided hopen.1
    simp [hopen.status_step, CheckpointStatus.isTerminal] at hterm
  · intro hopen
    refine ⟨?_, ?_⟩
    · intro hterm
      rcases status_step_of_terminal hterm hopen with h | ⟨reason, _, h⟩
      · simpa [h] using hterm
      · simp [h, CheckpointStatus.isTerminal]
    · intro hrefused
      rcases refused_iff.1 hrefused with ⟨hterm, hno⟩
      rcases status_step_of_terminal hterm hopen with h | ⟨reason, _, h⟩
      · simpa [h] using hno
      · simp [h, CheckpointStatus.allowsProceed]

theorem keepsDecision_step_iff (s : Session) (i : HitlStep) :
    KeepsDecision s (s.step i) ↔ ¬ Reopens s i ∧ ¬ Overrules s i := by
  constructor
  · intro hkeeps
    refine ⟨?_, ?_⟩
    · intro hopen
      have hstatus := hkeeps hopen.1
      have hterm := hopen.1
      simp [← hstatus, hopen.status_step, CheckpointStatus.isTerminal] at hterm
    · rintro ⟨hterm, reason, rfl, hne⟩
      exact hne (hkeeps hterm).symm
  · rintro ⟨hopen, hover⟩ hterm
    rcases status_step_of_terminal hterm hopen with h | ⟨reason, hi, h⟩
    · exact h
    · by_contra hne
      exact hover ⟨hterm, reason, hi, fun heq => hne (h.trans heq.symm)⟩

theorem StaysDecided.trans {a b c : Session} (hab : StaysDecided a b) (hbc : StaysDecided b c) :
    StaysDecided a c := by
  refine ⟨fun ha => hbc.1 (hab.1 ha), ?_⟩
  intro hrefused
  have hb : b.status.isTerminal ∧ b.status.allowsProceed = false :=
    ⟨hab.1 (refused_iff.1 hrefused).1, hab.2 hrefused⟩
  exact hbc.2 (refused_iff.2 hb)

theorem KeepsDecision.trans {a b c : Session} (hab : KeepsDecision a b)
    (hbc : KeepsDecision b c) : KeepsDecision a c := by
  intro ha
  have hb : b.status = a.status := hab ha
  calc
    c.status = b.status := hbc (by rwa [hb])
    _ = a.status := hb

/-- Decided checkpoints stay decided along a run if and only if no step of it pauses or edits one, and
every decision is kept as it is if and only if none aborts one either. -/
theorem decided_iff_not_reopened (checkpointId : String) (riskTier : RiskTier)
    (timeoutSecs : Option UInt64) (now : Timestamp) (l : List HitlStep) :
    (Evolves Session.step StaysDecided (Session.start checkpointId riskTier timeoutSecs now) l ↔
      EachStep Session.step (fun s i => ¬ Reopens s i)
        (Session.start checkpointId riskTier timeoutSecs now) l) ∧
    (Evolves Session.step KeepsDecision (Session.start checkpointId riskTier timeoutSecs now) l ↔
      EachStep Session.step (fun s i => ¬ Reopens s i ∧ ¬ Overrules s i)
        (Session.start checkpointId riskTier timeoutSecs now) l) := by
  refine ⟨?_, ?_⟩
  · apply evolves_iff_eachStep
    · intro s
      exact ⟨id, fun h => (refused_iff.1 h).2⟩
    · exact StaysDecided.trans
    · exact staysDecided_step_iff
  · apply evolves_iff_eachStep
    · intro s _
      rfl
    · exact KeepsDecision.trans
    · exact keepsDecision_step_iff

/-- The steps that reopen an aborted checkpoint: the status is rejected after the first of them and
approved after the last. -/
def reopening : List HitlStep :=
  [.intervene (.abort "stop"), .intervene .pause, .intervene .continue, .evaluate 0]

/-- An aborted checkpoint comes to let the execution proceed. -/
theorem aborted_then_approved :
    ¬ ∀ (checkpointId : String) (riskTier : RiskTier) (timeoutSecs : Option UInt64)
        (now : Timestamp) (l : List HitlStep),
      Evolves Session.step
        (fun a b => (∃ reason, a.status = .rejected reason) ∨ a.status = .expired →
          b.status.allowsProceed = false)
        (Session.start checkpointId riskTier timeoutSecs now) l := by
  intro h
  have hend := h "c" .low none 0 reopening (reopening.take 1) reopening
    (List.take_prefix 1 reopening) List.prefix_rfl (.inl ⟨"aborted: stop", by decide⟩)
  exact absurd hend (by decide)

/-! ## Paused checkpoints -/

/-- The step pauses or edits. -/
def HitlStep.isHold : HitlStep → Bool
  | .intervene .pause => true
  | .intervene (.edit _) => true
  | _ => false

/-- No pause and no edit since the last `continue`, or since the creation if there was none. -/
def Resumed (l : List HitlStep) : Prop :=
  ∀ pre i post, l = pre ++ i :: post → i.isHold → .intervene .continue ∈ post

theorem resumed_nil : Resumed [] := by
  intro pre i post h
  simp at h

theorem resumed_concat_iff {l : List HitlStep} {i : HitlStep} :
    Resumed (l ++ [i]) ↔ i = .intervene .continue ∨ i.isHold = false ∧ Resumed l := by
  constructor
  · intro h
    by_cases hi : i = .intervene .continue
    · exact .inl hi
    · refine .inr ⟨?_, ?_⟩
      · -- Nothing comes after the last step.
        by_contra hhold
        have hnone := h l i [] rfl (by simpa using hhold)
        simp at hnone
      · intro pre j post hl hhold
        have hmem := h pre j (post ++ [i]) (by simp [hl]) hhold
        simpa [Ne.symm hi] using hmem
  · intro h pre j post hl hhold
    rcases List.eq_nil_or_concat post with rfl | ⟨post, k, rfl⟩
    · have hlast : i = j := by simpa using (List.append_inj' hl rfl).2
      subst hlast
      rcases h with rfl | ⟨hno, _⟩
      · simp [HitlStep.isHold] at hhold
      · simp [hno] at hhold
    · have hsplit : l ++ [i] = (pre ++ j :: post) ++ [k] := by simpa using hl
      have hlast : i = k := by simpa using (List.append_inj' hsplit rfl).2
      rcases h with hi | ⟨_, hres⟩
      · simp [← hlast, hi]
      · have hmem := hres pre j post (List.append_inj' hsplit rfl).1 hhold
        simp [hmem]

/-- A step after which the checkpoint is undecided pauses it, continues it, or leaves its status. -/
theorem status_step_undecided {s : Session} {i : HitlStep}
    (h : (s.step i).status.isTerminal = false) :
    i.isHold ∧ (s.step i).status = .paused ∨
      i = .intervene .continue ∧ (s.step i).status = .pending ∨
      i.isHold = false ∧ i ≠ .intervene .continue ∧ (s.step i).status = s.status := by
  cases i with
  | vote v now =>
      refine .inr (.inr ⟨rfl, by simp, ?_⟩)
      rcases s.step_vote v now with hs | ⟨_, hs⟩ | ⟨_, _, _, hs⟩
      · rw [hs]
      · simp [hs, Session.status, CheckpointStatus.isTerminal] at h
      · rw [hs]
        rfl
  | evaluate now =>
      refine .inr (.inr ⟨rfl, by simp, ?_⟩)
      rcases s.step_evaluate now with hs | ⟨_, status, hstatus, hs⟩
      · rw [hs]
      · have hterm : status.isTerminal = false := by simpa [hs, Session.status] using h
        rcases hstatus with ⟨hyes, _⟩ | ⟨rfl, _⟩
        · simp [hterm] at hyes
        · cases hterm
  | intervene action =>
      rcases s.step_intervene action with ⟨rfl | ⟨summary, rfl⟩, hs⟩ | ⟨rfl, _, hs⟩ | ⟨rfl, hne, hs⟩ |
        ⟨reason, _, hs⟩
      · exact .inl ⟨rfl, by rw [hs]; rfl⟩
      · exact .inl ⟨rfl, by rw [hs]; rfl⟩
      · exact .inr (.inl ⟨rfl, by rw [hs]; rfl⟩)
      · -- `continue` fails on a checkpoint that is not paused: it was pending and still is.
        refine .inr (.inl ⟨rfl, ?_⟩)
        rw [hs] at h ⊢
        cases hstatus : s.status with
        | pending =>
            rfl
        | paused =>
            exact absurd hstatus hne
        | approved | rejected _ | expired =>
            simp [hstatus, CheckpointStatus.isTerminal] at h
      · simp [hs, Session.status, CheckpointStatus.isTerminal] at h

/-- Along every run, what is pending was continued since it was last held, and what is paused was
not. -/
theorem resumed_of_status (checkpointId : String) (riskTier : RiskTier)
    (timeoutSecs : Option UInt64) (now : Timestamp) (l : List HitlStep) :
    ((after Session.step (Session.start checkpointId riskTier timeoutSecs now) l).status = .pending →
        Resumed l) ∧
      ((after Session.step (Session.start checkpointId riskTier timeoutSecs now) l).status = .paused →
        ¬ Resumed l) := by
  induction l using List.reverseRecOn with
  | nil =>
      exact ⟨fun _ => resumed_nil, fun h => by cases h⟩
  | append_singleton l i ih =>
      rw [after_append, after_cons, after_nil]
      generalize after Session.step (Session.start checkpointId riskTier timeoutSecs now) l = s at ih
      refine ⟨?_, ?_⟩
      · intro h
        rcases status_step_undecided (s := s) (i := i) (by simp [h, CheckpointStatus.isTerminal])
          with ⟨_, hpaused⟩ | ⟨hi, _⟩ | ⟨hhold, _, hsame⟩
        · simp [hpaused] at h
        · exact resumed_concat_iff.2 (.inl hi)
        · exact resumed_concat_iff.2 (.inr ⟨hhold, ih.1 (hsame.symm.trans h)⟩)
      · intro h hres
        have hres := resumed_concat_iff.1 hres
        rcases status_step_undecided (s := s) (i := i) (by simp [h, CheckpointStatus.isTerminal])
          with ⟨hhold, _⟩ | ⟨_, hpending⟩ | ⟨_, hne, hsame⟩
        · rcases hres with rfl | ⟨hno, _⟩
          · cases hhold
          · simp [hno] at hhold
        · simp [hpending] at h
        · rcases hres with hi | ⟨_, hres⟩
          · exact hne hi
          · exact ih.2 (hsame.symm.trans h) hres

/-- A step that approves is an evaluation of an undecided checkpoint that is ready. -/
theorem status_step_approved_iff {s : Session} {i : HitlStep} :
    s.status ≠ .approved ∧ (s.step i).status = .approved ↔
      ∃ now, i = .evaluate now ∧ s.status.isTerminal = false ∧ s.Ready now := by
  constructor
  · rintro ⟨hbefore, h⟩
    cases i with
    | vote v now =>
        rcases s.step_vote v now with hs | ⟨_, hs⟩ | ⟨_, _, _, hs⟩
        · exact absurd (by simpa [hs] using h) hbefore
        · simp [hs, Session.status] at h
        · exact absurd (by simpa [hs, Session.status] using h) hbefore
    | evaluate now =>
        rcases s.step_evaluate now with hs | ⟨hterm, status, hstatus, hs⟩
        · exact absurd (by simpa [hs] using h) hbefore
        · have happroved : status = .approved := by simpa [hs, Session.status] using h
          subst happroved
          rcases hstatus with ⟨_, hno⟩ | ⟨_, hready⟩
          · cases hno
          · exact ⟨now, rfl, hterm, hready⟩
    | intervene action =>
        rcases s.step_intervene action with ⟨_, hs⟩ | ⟨_, _, hs⟩ | ⟨_, _, hs⟩ | ⟨reason, _, hs⟩
        · simp [hs, Session.status] at h
        · simp [hs, Session.status] at h
        · exact absurd (by simpa [hs] using h) hbefore
        · simp [hs, Session.status] at h
  · rintro ⟨now, rfl, hterm, hready⟩
    refine ⟨?_, ?_⟩
    · intro happroved
      simp [happroved, CheckpointStatus.isTerminal] at hterm
    · have heval := evaluateCheckpoint_eq_approved.2 ⟨hterm, hready⟩
      simp [Session.step, heval, Session.status]

/-- An evaluation finds a paused checkpoint ready. -/
def ApprovesPaused (s : Session) (i : HitlStep) : Prop :=
  ∃ now, i = .evaluate now ∧ s.status = .paused ∧ s.Ready now

/-- Each approval of a run comes after the `continue` of whatever held the checkpoint before it, if
and only if no evaluation of the run finds a paused checkpoint ready. -/
theorem approved_resumed_iff (checkpointId : String) (riskTier : RiskTier)
    (timeoutSecs : Option UInt64) (now : Timestamp) (l : List HitlStep) :
    (∀ pre i, pre ++ [i] <+: l →
      (after Session.step (Session.start checkpointId riskTier timeoutSecs now) pre).status ≠
        .approved →
      (after Session.step (Session.start checkpointId riskTier timeoutSecs now)
        (pre ++ [i])).status = .approved →
      Resumed (pre ++ [i])) ↔
    EachStep Session.step (fun s i => ¬ ApprovesPaused s i)
      (Session.start checkpointId riskTier timeoutSecs now) l := by
  constructor
  · rintro h pre i hpre ⟨at', rfl, hpaused, hready⟩
    have happroves := status_step_approved_iff.2
      ⟨at', rfl, by simp [hpaused, CheckpointStatus.isTerminal], hready⟩
    have hres := h pre (.evaluate at') hpre happroves.1 (by simpa [after_append] using happroves.2)
    have hno := (resumed_of_status checkpointId riskTier timeoutSecs now pre).2 hpaused
    exact hno (by simpa [HitlStep.isHold] using resumed_concat_iff.1 hres)
  · intro h pre i hpre hbefore hafter
    have hstatus := resumed_of_status checkpointId riskTier timeoutSecs now pre
    have hno := h pre i hpre
    generalize hs : after Session.step (Session.start checkpointId riskTier timeoutSecs now) pre = s
      at hbefore hstatus hno
    rw [after_append, after_cons, after_nil, hs] at hafter
    rcases status_step_approved_iff.1 ⟨hbefore, hafter⟩ with ⟨at', rfl, hterm, hready⟩
    refine resumed_concat_iff.2 (.inr ⟨rfl, hstatus.1 ?_⟩)
    cases hpaused : s.status with
    | pending =>
        rfl
    | paused =>
        exact absurd ⟨at', rfl, hpaused, hready⟩ hno
    | approved | rejected _ | expired =>
        simp [hpaused, CheckpointStatus.isTerminal] at hterm

/-- A pause and an evaluation approve a checkpoint that nobody continued. -/
theorem paused_then_approved :
    ¬ ∀ (checkpointId : String) (riskTier : RiskTier) (timeoutSecs : Option UInt64)
        (now : Timestamp) (l pre : List HitlStep) (i : HitlStep), pre ++ [i] <+: l →
      (after Session.step (Session.start checkpointId riskTier timeoutSecs now) pre).status ≠
        .approved →
      (after Session.step (Session.start checkpointId riskTier timeoutSecs now)
        (pre ++ [i])).status = .approved →
      Resumed (pre ++ [i]) := by
  intro h
  have hres := h "c" .low none 0 [.intervene .pause, .evaluate 0] [.intervene .pause] (.evaluate 0)
    List.prefix_rfl (by decide) (by decide)
  have hnone := hres [] (.intervene .pause) [.evaluate 0] rfl rfl
  simp at hnone

end Hitl
end Aivcs
