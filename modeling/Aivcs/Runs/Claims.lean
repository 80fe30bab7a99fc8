import Aivcs.Lib.Log
import Aivcs.Runs.Store
import Mathlib.Data.List.Pairwise

/-!
# Runs.Claims — no run is claimed twice

A claim is a query, a re-read and a write, and anything may happen between them: the run is claimed by
another engine, finished, put back in the queue.  What keeps claims apart is the idempotency key alone,
which is spent by the first engine to write under it.

Nothing else is asked of the calls, not even that identifiers are fresh.
-/

namespace Aivcs
namespace Runs

open Aivcs.Lib
open Aivcs.Lib.Interleaving

abbrev MeshHistory : Type := History MeshOp MeshOp.Ans

abbrev MeshEntry (ι : Type) : Type := Entry MeshOp MeshOp.Ans ι

abbrev MeshConfig (ι : Type) : Type := Config MeshOp MeshOp.Ans Reply Collection ι

/-! ## What one call sends and returns -/

/-- The document tells of a run that a query has answered with. -/
def Seen (h : MeshHistory) (doc : Document) : Prop :=
  ∃ field value limit docs, ⟨.queryDocuments field value limit, .ok docs⟩ ∈ h ∧
    ∃ d ∈ docs, d.runId = doc.runId ∧ d.owner = doc.owner ∧ d.repo = doc.repo ∧
      d.createdAt = doc.createdAt

theorem Seen.append {h : MeshHistory} {doc : Document} (hseen : Seen h doc) (h' : MeshHistory) :
    Seen (h ++ h') doc := by
  rcases hseen with ⟨field, value, limit, docs, hmem, hd⟩
  exact ⟨field, value, limit, docs, List.mem_append_left _ hmem, hd⟩

/-- The calls of a program: an enqueue sends the document of its new run and nothing else; whatever
another call writes tells of a run it has seen, and a claim is written under its key. -/
def Call.Sends (call : Call) (h : MeshHistory) (op : MeshOp) : Prop :=
  match call, op with
  | .enqueue env owner repo, op =>
      h = [] ∧ op = .createDocument (DataMeshRunStore.toDoc (newRun env owner repo))
  | _, .createDocument doc => Seen h doc
  | _, .createDocumentIdempotent key doc =>
      key = DataMeshRunStore.claimKey doc.runId ∧ Seen h doc
  | _, _ => True

/-- The results of a program: an enqueue returns its new run once that is written, and a run that is
claimed was written under its key. -/
def Call.Returns (call : Call) (h : MeshHistory) (reply : Reply) : Prop :=
  match call, reply with
  | .enqueue env owner repo, reply =>
      ∃ ans r, h = [⟨.createDocument (DataMeshRunStore.toDoc (newRun env owner repo)), ans⟩] ∧
        reply = .enqueued r ∧ ∀ created, ans = .ok created → r = .ok (newRun env owner repo)
  | _, .claimed (.ok (some run)) =>
      ∃ created : Created, ⟨.createDocumentIdempotent (DataMeshRunStore.claimKey run.runId)
        (DataMeshRunStore.toDoc run), .ok created⟩ ∈ h ∧ created.status ≠ "exists" ∧
          Seen h (DataMeshRunStore.toDoc run)
  | _, _ => True

theorem Call.Sends.seen {call : Call} {h : MeshHistory} {key : String} {doc : Document}
    (hsends : call.Sends h (.createDocumentIdempotent key doc)) : Seen h doc := by
  cases call with
  | enqueue env owner repo =>
      cases hsends.2
  | _ =>
      exact hsends.2

/-- A run made from the newest event of a run tells of that run. -/
theorem seen_of_query (h : MeshHistory) (runId : String) {docs : List Document} {current : Run}
    (hcurrent : docs.head?.bind DataMeshRunStore.runFrom = some current) (status : RunStatus) :
    Seen (h ++ [⟨.queryDocuments "run_id" runId (some 1), .ok docs⟩])
      (DataMeshRunStore.toDoc { current with status := status }) := by
  rcases Option.bind_eq_some_iff.1 hcurrent with ⟨doc, hdoc, hrun⟩
  obtain rfl := Option.some.inj hrun
  exact ⟨_, _, _, docs, List.mem_append_right _ List.mem_cons_self, doc, List.mem_of_mem_head? hdoc,
    rfl, rfl, rfl, rfl⟩

theorem obeys_claimFrom (seen : List String) (cands : List Run) (h : MeshHistory) :
    (DataMeshRunStore.claimFrom seen cands).Obeys (Call.Sends .claimNextQueued)
      (fun h r => Call.Returns .claimNextQueued h (.claimed r)) h := by
  induction cands generalizing seen h with
  | nil =>
      trivial
  | cons cand cands ih =>
      unfold DataMeshRunStore.claimFrom
      split_ifs
      · exact ih seen h
      · refine ⟨trivial, ?_⟩
        intro answer
        cases answer with
        | error e =>
            trivial
        | ok docs =>
            cases hcurrent : docs.head?.bind DataMeshRunStore.runFrom with
            | none =>
                simp only [Proc.bind_ret, hcurrent]
                exact ih _ _
            | some current =>
                simp only [Proc.bind_ret, hcurrent]
                split_ifs
                · exact ih _ _
                · have hseen := seen_of_query h cand.runId hcurrent .running
                  refine ⟨⟨rfl, hseen⟩, ?_⟩
                  intro created
                  cases created with
                  | error e =>
                      trivial
                  | ok created =>
                      simp only [Proc.bind_ret]
                      split_ifs with hexists
                      · exact ih _ _
                      · exact ⟨created, List.mem_append_right _ List.mem_cons_self, hexists,
                          hseen.append _⟩

/-- Every call keeps to what it may send and return. -/
theorem obeys_program (call : Call) : call.program.Obeys call.Sends call.Returns [] := by
  cases call with
  | enqueue env owner repo =>
      refine ⟨⟨rfl, rfl⟩, ?_⟩
      intro answer
      cases answer with
      | error e =>
          exact ⟨_, _, rfl, rfl, fun created hok => by cases hok⟩
      | ok created =>
          exact ⟨_, _, rfl, rfl, fun _ _ => rfl⟩
  | listByRepo owner repo =>
      refine ⟨trivial, ?_⟩
      intro answer
      cases answer <;> trivial
  | listAll =>
      refine ⟨trivial, ?_⟩
      intro answer
      cases answer <;> trivial
  | get runId =>
      refine ⟨trivial, ?_⟩
      intro answer
      cases answer <;> trivial
  | claimNextQueued =>
      refine Proc.Obeys.bind ⟨trivial, ?_⟩
      intro answer
      cases answer with
      | error e =>
          trivial
      | ok docs =>
          exact obeys_claimFrom [] _ _
  | setStatus runId status =>
      refine Proc.Obeys.bind ⟨trivial, ?_⟩
      intro answer
      cases answer with
      | error e =>
          trivial
      | ok docs =>
          cases hcurrent : docs.head?.bind DataMeshRunStore.runFrom with
          | none =>
              simp only [Proc.bind_ret, hcurrent]
              trivial
          | some current =>
              simp only [Proc.bind_ret, hcurrent]
              refine ⟨seen_of_query [] runId hcurrent status, ?_⟩
              intro created
              cases created <;> trivial

/-! ## What holds along a log -/

section Log

variable {ι : Type} [DecidableEq ι] {calls : ι → Call} {log : List (MeshEntry ι)} {c : MeshConfig ι}

/-- The calls, none of which has sent anything, on an empty collection. -/
def callers (calls : ι → Call) : MeshConfig ι :=
  ⟨.empty, fun i => (calls i).program⟩

/-- The entry is a write that spent the key. -/
def Spends (key : String) (e : MeshEntry ι) : Prop :=
  ∃ i doc created, e = ⟨i, .createDocumentIdempotent key doc, .ok created⟩ ∧
    created.status ≠ "exists"

/-- The entry is an enqueue of the run a document tells of. -/
def Enqueues (calls : ι → Call) (doc : Document) (e : MeshEntry ι) : Prop :=
  ∃ i env created, calls i = .enqueue env doc.owner doc.repo ∧
    e = ⟨i, .createDocument (DataMeshRunStore.toDoc (newRun env doc.owner doc.repo)),
      .ok created⟩ ∧
    doc.runId = (newRun env doc.owner doc.repo).runId ∧ doc.createdAt = env.now

/-- A key is spent once and then known; every document tells of a run that was enqueued, and queries
answer with documents. -/
structure Orderly (calls : ι → Call) (log : List (MeshEntry ι)) (s : Collection) : Prop where
  known : ∀ key, ∀ e ∈ log, Spends key e → key ∈ s.keys
  once : log.Pairwise fun a b => ∀ key, ¬ (Spends key a ∧ Spends key b)
  enqueued : ∀ doc ∈ s.docs, ∃ e ∈ log, Enqueues calls doc e
  answered : ∀ i field value limit docs,
    ⟨i, .queryDocuments field value limit, .ok docs⟩ ∈ log → ∀ d ∈ docs, d ∈ s.docs

omit [DecidableEq ι] in
theorem Enqueues.of_same {doc d : Document} {e : MeshEntry ι} (h : Enqueues calls d e)
    (hid : d.runId = doc.runId) (howner : d.owner = doc.owner) (hrepo : d.repo = doc.repo)
    (hat : d.createdAt = doc.createdAt) : Enqueues calls doc e := by
  unfold Enqueues at h ⊢
  rwa [hid, howner, hrepo, hat] at h

omit [DecidableEq ι] in
/-- One more entry, after which the collection has grown. -/
theorem Orderly.snoc {s s' : Collection} {e : MeshEntry ι} (h : Orderly calls log s)
    (hkeys : ∀ key ∈ s.keys, key ∈ s'.keys) (hdocs : ∀ d ∈ s.docs, d ∈ s'.docs)
    (hspends : ∀ key, Spends key e → key ∉ s.keys ∧ key ∈ s'.keys)
    (hnew : ∀ d ∈ s'.docs, d ∈ s.docs ∨ ∃ e' ∈ log ++ [e], Enqueues calls d e')
    (hanswered : ∀ i field value limit docs,
      e = ⟨i, .queryDocuments field value limit, .ok docs⟩ → ∀ d ∈ docs, d ∈ s'.docs) :
    Orderly calls (log ++ [e]) s' := by
  refine ⟨?_, ?_, ?_, ?_⟩
  · intro key e' he' hsp
    rcases List.mem_append.1 he' with he' | he'
    · exact hkeys key (h.known key e' he' hsp)
    · obtain rfl := List.mem_singleton.1 he'
      exact (hspends key hsp).2
  · refine List.pairwise_append.2 ⟨h.once, List.pairwise_singleton _ _, ?_⟩
    rintro a ha b hb key ⟨hsa, hsb⟩
    obtain rfl := List.mem_singleton.1 hb
    -- The key was known when the later write was made.
    exact (hspends key hsb).1 (h.known key a ha hsa)
  · intro d hd
    rcases hnew d hd with hold | hlog
    · rcases h.enqueued d hold with ⟨e', he', henq⟩
      exact ⟨e', List.mem_append_left _ he', henq⟩
    · exact hlog
  · intro i field value limit docs hmem d hd
    rcases List.mem_append.1 hmem with hmem | hmem
    · exact hdocs d (h.answered i field value limit docs hmem d hd)
    · exact hanswered i field value limit docs (List.mem_singleton.1 hmem).symm d hd

/-- A document that tells of a run the writer has seen tells of one that was enqueued. -/
theorem Orderly.enqueued_of_seen {s : Collection} {doc : Document} {i : ι}
    (h : Orderly calls log s) (hseen : Seen (historyOf log i) doc) :
    ∃ e ∈ log, Enqueues calls doc e := by
  rcases hseen with ⟨field, value, limit, docs, hmem, d, hd, hid, howner, hrepo, hat⟩
  have hstored := h.answered i field value limit docs (mem_historyOf.1 hmem) d hd
  rcases h.enqueued d hstored with ⟨e, he, henq⟩
  exact ⟨e, he, henq.of_same hid howner hrepo hat⟩

/-- A write by any call other than an enqueue is of a run the call has seen. -/
theorem Orderly.enqueued_of_sends {s : Collection} {doc : Document} {i : ι} {created : Created}
    (h : Orderly calls log s) (hsends : (calls i).Sends (historyOf log i) (.createDocument doc)) :
    ∃ e ∈ log ++ [⟨i, .createDocument doc, .ok created⟩], Enqueues calls doc e := by
  have hother : Seen (historyOf log i) doc →
      ∃ e ∈ log ++ [⟨i, .createDocument doc, .ok created⟩], Enqueues calls doc e := by
    intro hseen
    rcases h.enqueued_of_seen hseen with ⟨e, he, henq⟩
    exact ⟨e, List.mem_append_left _ he, henq⟩
  cases hcall : calls i with
  | enqueue env owner repo =>
      rw [hcall] at hsends
      obtain rfl := MeshOp.createDocument.inj hsends.2
      exact ⟨_, List.mem_append_right _ List.mem_cons_self, i, env, created, hcall, rfl, rfl, rfl⟩
  | _ =>
      rw [hcall] at hsends
      exact hother hsends

theorem Orderly.step {s : Collection} {i : ι} {op : MeshOp} (h : Orderly calls log s)
    (hsends : (calls i).Sends (historyOf log i) op) :
    Orderly calls (log ++ [⟨i, op, (Collection.exec op s).1⟩]) (Collection.exec op s).2 := by
  cases op with
  | createDocument doc =>
      refine h.snoc (fun key hkey => hkey) (fun d hd => List.mem_cons_of_mem _ hd) ?_ ?_ ?_
      · rintro key ⟨_, _, _, heq, _⟩
        cases heq
      · intro d hd
        rcases List.mem_cons.1 hd with rfl | hd
        · exact Or.inr (h.enqueued_of_sends hsends)
        · exact Or.inl hd
      · intro _ _ _ _ _ heq
        cases heq
  | createDocumentIdempotent key doc =>
      by_cases hkey : key ∈ s.keys
      · -- The key is spent: nothing is written and the answer says so.
        have hexec : Collection.exec (.createDocumentIdempotent key doc) s = (.ok ⟨"exists"⟩, s) :=
          if_pos hkey
        rw [hexec]
        refine h.snoc (fun key hkey => hkey) (fun d hd => hd) ?_ (fun d hd => Or.inl hd) ?_
        · rintro key' ⟨_, _, _, heq, hstatus⟩
          cases heq
          exact absurd rfl hstatus
        · intro _ _ _ _ _ heq
          cases heq
      · have hexec : Collection.exec (.createDocumentIdempotent key doc) s =
            (.ok ⟨"created"⟩, ⟨doc :: s.docs, key :: s.keys⟩) :=
          if_neg hkey
        rw [hexec]
        refine h.snoc (fun key hkey => List.mem_cons_of_mem _ hkey)
          (fun d hd => List.mem_cons_of_mem _ hd) ?_ ?_ ?_
        · rintro key' ⟨_, _, _, heq, _⟩
          cases heq
          exact ⟨hkey, List.mem_cons_self⟩
        · intro d hd
          rcases List.mem_cons.1 hd with rfl | hd
          · rcases h.enqueued_of_seen hsends.seen with ⟨e, he, henq⟩
            exact Or.inr ⟨e, List.mem_append_left _ he, henq⟩
          · exact Or.inl hd
        · intro _ _ _ _ _ heq
          cases heq
  | queryDocuments field value limit =>
      refine h.snoc (fun key hkey => hkey) (fun d hd => hd) ?_ (fun d hd => Or.inl hd) ?_
      · rintro key ⟨_, _, _, heq, _⟩
        cases heq
      · intro _ _ _ _ docs heq d hd
        cases heq
        exact Collection.mem_docs_of_mem_query hd
  | listDocuments limit =>
      refine h.snoc (fun key hkey => hkey) (fun d hd => hd) ?_ (fun d hd => Or.inl hd) ?_
      · rintro key ⟨_, _, _, heq, _⟩
        cases heq
      · intro _ _ _ _ _ heq
        cases heq

theorem orderly_of_logged (h : Logged Collection.exec (callers calls) log c) :
    Orderly calls log c.store := by
  induction h with
  | start =>
      refine ⟨?_, List.Pairwise.nil, ?_, ?_⟩
      · intro key e he
        cases he
      · intro doc hdoc
        cases hdoc
      · intro i field value limit docs hmem
        cases hmem
  | call h i op next hcall ih =>
      have hobeys := h.obeys (fun i => obeys_program (calls i)) i
      rw [hcall] at hobeys
      rw [Config.fire_of_call hcall]
      exact ih.step hobeys.1

/-- An enqueue that has written has returned its run. -/
theorem returned_of_enqueued (h : Logged Collection.exec (callers calls) log c) {i : ι} {env : Env}
    {owner repo : String} (hcall : calls i = .enqueue env owner repo) {created : Created}
    (hmem : ⟨i, .createDocument (DataMeshRunStore.toDoc (newRun env owner repo)), .ok created⟩ ∈
      log) :
    c.procs i = .ret (.enqueued (.ok (newRun env owner repo))) := by
  have hhist := mem_historyOf.2 hmem
  have hobeys := h.obeys (fun i => obeys_program (calls i)) i
  rw [hcall] at hobeys
  cases hproc : c.procs i with
  | call op next =>
      -- It would be about to make its first call.
      rw [hproc] at hobeys
      rw [hobeys.1.1] at hhist
      cases hhist
  | ret reply =>
      rw [hproc] at hobeys
      rcases hobeys with ⟨ans, r, heq, rfl, hr⟩
      rw [heq, List.mem_singleton] at hhist
      rw [hr created (eq_of_heq (Sigma.mk.inj hhist).2).symm]

/-- A claim that has returned a run spent its key, and the run was enqueued. -/
theorem claimed_of_returned (h : Logged Collection.exec (callers calls) log c) {i : ι} {r : Run}
    (hret : c.procs i = .ret (.claimed (.ok (some r)))) :
    (∃ e ∈ log, e.who = i ∧ Spends (DataMeshRunStore.claimKey r.runId) e) ∧
      ∃ e ∈ log, Enqueues calls (DataMeshRunStore.toDoc r) e := by
  have hobeys := h.obeys (fun i => obeys_program (calls i)) i
  rw [hret] at hobeys
  have hclaim : (calls i).Returns (historyOf log i) (.claimed (.ok (some r))) →
      ∃ created : Created, ⟨.createDocumentIdempotent (DataMeshRunStore.claimKey r.runId)
        (DataMeshRunStore.toDoc r), .ok created⟩ ∈ historyOf log i ∧ created.status ≠ "exists" ∧
          Seen (historyOf log i) (DataMeshRunStore.toDoc r) := by
    intro hreturns
    cases hcall : calls i with
    | enqueue env owner repo =>
        rw [hcall] at hreturns
        rcases hreturns with ⟨_, _, _, hreply, _⟩
        cases hreply
    | _ =>
        rw [hcall] at hreturns
        exact hreturns
  rcases hclaim hobeys with ⟨created, hmem, hstatus, hseen⟩
  exact ⟨⟨_, mem_historyOf.1 hmem, rfl, i, _, created, rfl, hstatus⟩,
    (orderly_of_logged h).enqueued_of_seen hseen⟩

/-- In every interleaving, of any number of calls, no two claims return one run, and a run that a claim
returns was enqueued by a call that has finished, with the same owner, repository and time. -/
theorem no_run_claimed_twice (calls : ι → Call) (c : MeshConfig ι)
    (hsteps : Steps Collection.exec (fun _ _ => True) (callers calls) c) :
    (∀ i j r r', c.procs i = .ret (.claimed (.ok (some r))) →
      c.procs j = .ret (.claimed (.ok (some r'))) → r.runId = r'.runId → i = j) ∧
    ∀ i r, c.procs i = .ret (.claimed (.ok (some r))) →
      ∃ j env, calls j = .enqueue env r.owner r.repo ∧
        c.procs j = .ret (.enqueued (.ok (newRun env r.owner r.repo))) ∧
        r.runId = (newRun env r.owner r.repo).runId ∧
        r.createdAt = (newRun env r.owner r.repo).createdAt := by
  rcases hsteps.exists_log with ⟨log, hlog⟩
  refine ⟨?_, ?_⟩
  · intro i j r r' hi hj hid
    rcases (claimed_of_returned hlog hi).1 with ⟨a, ha, rfl, hspends⟩
    rcases (claimed_of_returned hlog hj).1 with ⟨b, hb, rfl, hspends'⟩
    -- Two entries that spend one key are one entry.
    by_contra hne
    have hab : a ≠ b := fun heq => hne (heq ▸ rfl)
    have hsymm : Std.Symm fun a b : MeshEntry ι => ∀ key, ¬ (Spends key a ∧ Spends key b) :=
      ⟨fun _ _ h key hboth => h key ⟨hboth.2, hboth.1⟩⟩
    exact (orderly_of_logged hlog).once.forall ha hb hab _ ⟨hspends, hid ▸ hspends'⟩
  · intro i r hi
    rcases (claimed_of_returned hlog hi).2 with ⟨e, he, j, env, created, hcall, rfl, hid, hat⟩
    exact ⟨j, env, hcall, returned_of_enqueued hlog hcall he, hid, hat⟩

end Log

/-- A run is enqueued; two engines claim; a client puts the run back in the queue. -/
def demoCalls : Fin 4 → Call
  | 0 => .enqueue ⟨"1", 7⟩ "o" "r"
  | 1 => .claimNextQueued
  | 2 => .claimNextQueued
  | 3 => .setStatus "run_1" .queued

/-- Both engines have seen the run when the first claims it, and it is queued again when the second
tries. -/
def demoSchedule : List (Fin 4) :=
  [0, 1, 2, 1, 1, 3, 3, 2, 2]

theorem no_run_claimed_twice_demo :
    ((callers demoCalls).fireAll Collection.exec demoSchedule).procs 1 =
        .ret (.claimed (.ok (some ⟨"run_1", "o", "r", .running, 7⟩))) ∧
      ∀ i r, ((callers demoCalls).fireAll Collection.exec demoSchedule).procs i =
        .ret (.claimed (.ok (some r))) → r.runId = "run_1" → i = 1 := by
  have hfirst : ((callers demoCalls).fireAll Collection.exec demoSchedule).procs 1 =
      .ret (.claimed (.ok (some ⟨"run_1", "o", "r", .running, 7⟩))) :=
    Proc.eq_ret_of_result? (by decide +kernel)
  refine ⟨hfirst, ?_⟩
  intro i r hi hid
  exact (no_run_claimed_twice demoCalls _
    (Steps.of_okAlong (Config.okAlong_of_forall (fun _ _ => trivial) demoSchedule _))).1 i 1 r _ hi
    hfirst hid

end Runs
end Aivcs
