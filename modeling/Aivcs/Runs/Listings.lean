import Aivcs.Lib.Latest
import Aivcs.Runs.Agreement

/-!
# Runs.Listings — what the durable store lists

`list_by_repo` reads the newest 500 events under the joined name of a repository, `list_all` the newest 1000
of all, and both keep the newest event of each run.  A run is listed as long as one of its events is in the
window, always with its current status, and comes before the runs whose newest events are older.
-/

namespace Aivcs
namespace Runs

open Aivcs.Lib

/-! ## Listings as the trait has them -/

/-- A run as it was when it was enqueued. -/
def Run.asEnqueued (run : Run) : Run :=
  { run with status := .queued }

/-- The run a call creates. -/
def Call.created? : Call → Option Run
  | .enqueue env owner repo => some (newRun env owner repo)
  | _ => none

/-- The runs that were enqueued, as they were then. -/
def enqueued (calls : List Call) : List Run :=
  calls.filterMap Call.created?

def enqueuedFor (calls : List Call) (owner repo : String) : List Run :=
  (enqueued calls).filter fun run => run.owner = owner ∧ run.repo = repo

namespace DataMeshRunStore

/-- The collection after a call. -/
def step (c : Collection) (call : Call) : Collection :=
  (call.program.run Collection.exec c).2

/-- One entry for each of the runs and no other, each as `get` returns it, the most recent first. -/
def Exact (c : Collection) (runs : List Run) (listing : StoreResult (List Run)) : Prop :=
  ∃ entries, listing = .ok entries ∧ (entries.map Run.asEnqueued).Perm runs ∧
    (∀ entry ∈ entries, ((get entry.runId).run Collection.exec c).1 = .ok (some entry)) ∧
    entries.Pairwise fun a b => b.createdAt ≤ a.createdAt

/-- Of two runs the one with the later newest event was not created before the other. -/
def LaterIsYounger (events : List Document) (runs : List Run) : Prop :=
  ∀ a ∈ runs, ∀ b ∈ runs, since Document.runId events a.runId < since Document.runId events b.runId →
    b.createdAt ≤ a.createdAt

instance (events : List Document) (runs : List Run) : Decidable (LaterIsYounger events runs) := by
  unfold LaterIsYounger
  infer_instance

/-- The events under the joined name of a repository. -/
def keyed (c : Collection) (owner repo : String) : List Document :=
  c.docs.filter fun doc => doc.repoKey = repoKey owner repo

/-! ## Runs and their events -/

/-- The events tell of the runs, and of each run. -/
structure Tells (runs : List Run) (events : List Document) : Prop where
  nodup : (runs.map Run.runId).Nodup
  told : ∀ doc ∈ events, (runOf doc).asEnqueued ∈ runs
  present : ∀ run ∈ runs, ∃ doc ∈ events, doc.runId = run.runId
  repoKey : ∀ doc ∈ events, doc.repoKey = repoKey doc.owner doc.repo

section Window

variable {c : Collection} {runs wanted : List Run} {events : List Document} {n : Nat}

theorem newestPerRun_eq (seen : List String) (runs : List Run) :
    newestPerRun seen runs = latest Run.runId seen runs := by
  induction runs generalizing seen with
  | nil => rfl
  | cons run runs ih =>
      unfold newestPerRun latest
      rw [ih, ih]

/-- The entries made from the newest `n` events. -/
def listed (n : Nat) (events : List Document) : List Run :=
  newestPerRun [] ((events.take n).filterMap runFrom)

theorem listed_eq (n : Nat) (events : List Document) :
    listed n events = latest Run.runId [] ((events.map runOf).take n) := by
  rw [listed, newestPerRun_eq, ← List.map_take]
  exact congrArg (latest Run.runId []) (congrFun List.filterMap_eq_map' _)

theorem since_runOf (events : List Document) (runId : String) :
    since Run.runId (events.map runOf) runId = since Document.runId events runId :=
  List.findIdx_map events runOf _

/-- A run is listed with its newest event if that is among the newest `n`. -/
theorem mem_listed {entry : Run} : entry ∈ listed n events ↔
    (∃ doc, events.find? (fun doc => doc.runId = entry.runId) = some doc ∧ runOf doc = entry) ∧
      since Document.runId events entry.runId < n := by
  rw [listed_eq, mem_latest, and_iff_right List.not_mem_nil, find?_take_eq_some_iff, List.find?_map,
    Option.map_eq_some_iff]
  exact and_congr_right' (by rw [← since_runOf]; exact Iff.rfl)

theorem pairwise_listed : (listed n events).Pairwise fun a b =>
    since Document.runId events a.runId < since Document.runId events b.runId := by
  have hshown : ∀ entry ∈ listed n events,
      since Run.runId ((events.map runOf).take n) entry.runId = since Document.runId events entry.runId := by
    intro entry hentry
    have hsince := (mem_listed.1 hentry).2
    rw [← since_runOf] at hsince ⊢
    exact since_take hsince
  have hpairwise : (listed n events).Pairwise fun a b =>
      since Run.runId ((events.map runOf).take n) a.runId <
        since Run.runId ((events.map runOf).take n) b.runId := by
    rw [listed_eq]
    exact pairwise_latest
  refine hpairwise.imp_of_mem fun ha hb hab => ?_
  rwa [hshown _ ha, hshown _ hb] at hab

/-- Exactly the runs with an event among the newest `n` are listed. -/
theorem Tells.mem_listed_asEnqueued (h : Tells runs events) {run : Run} :
    run ∈ (listed n events).map Run.asEnqueued ↔
      run ∈ runs ∧ since Document.runId events run.runId < n := by
  constructor
  · intro hrun
    rcases List.mem_map.1 hrun with ⟨entry, hentry, rfl⟩
    rcases mem_listed.1 hentry with ⟨⟨doc, hdoc, rfl⟩, hsince⟩
    exact ⟨h.told doc (List.mem_of_find?_eq_some hdoc), hsince⟩
  · rintro ⟨hrun, hsince⟩
    rcases h.present run hrun with ⟨doc, hdoc, hid⟩
    cases hfind : events.find? fun doc => doc.runId = run.runId with
    -- The run has an event, and the newest one tells of the same run.
    | none => exact absurd hid (by simpa using List.find?_eq_none.1 hfind doc hdoc)
    | some newest =>
        have hnewest : (runOf newest).runId = run.runId := by
          simpa [runOf] using List.find?_some hfind
        have htold := h.told newest (List.mem_of_find?_eq_some hfind)
        have hsame : (runOf newest).asEnqueued = run :=
          List.inj_on_of_nodup_map h.nodup htold hrun hnewest
        refine List.mem_map.2 ⟨runOf newest, mem_listed.2 ⟨⟨newest, ?_, rfl⟩, ?_⟩, hsame⟩
        · rw [hnewest, hfind]
        · rw [hnewest]
          exact hsince

theorem Tells.nodup_runs (h : Tells runs events) : runs.Nodup :=
  h.nodup.of_map

theorem nodup_listed : ((listed n events).map Run.asEnqueued).Nodup := by
  have hids : ((listed n events).map Run.runId).Nodup := by
    rw [listed_eq]
    exact nodup_latest
  have hmap : ((listed n events).map Run.asEnqueued).map Run.runId = (listed n events).map Run.runId := by
    rw [List.map_map]
    rfl
  exact (hmap ▸ hids).of_map

theorem Tells.perm_iff (h : Tells runs events) (hsub : wanted ⊆ runs) (hwanted : wanted.Nodup) :
    ((listed n events).map Run.asEnqueued).Perm wanted ↔
      ∀ run ∈ runs, since Document.runId events run.runId < n ↔ run ∈ wanted := by
  rw [List.perm_ext_iff_of_nodup nodup_listed hwanted]
  constructor
  · intro hperm run hrun
    rw [← hperm, h.mem_listed_asEnqueued, and_iff_right hrun]
  · intro hiff run
    rw [h.mem_listed_asEnqueued]
    constructor
    · exact fun hrun => (hiff run hrun.1).1 hrun.2
    · exact fun hrun => ⟨hsub hrun, (hiff run (hsub hrun)).2 hrun⟩

/-- What holds of the entries and does not depend on the status holds of the runs they are entries of. -/
theorem forall_mem_iff_of_perm {entries : List Run} (hperm : (entries.map Run.asEnqueued).Perm wanted)
    {p : Run → Prop} (hp : ∀ run, p run.asEnqueued ↔ p run) :
    (∀ entry ∈ entries, p entry) ↔ ∀ run ∈ wanted, p run := by
  constructor
  · intro hall run hrun
    rcases List.mem_map.1 (hperm.mem_iff.2 hrun) with ⟨entry, hentry, rfl⟩
    exact (hp entry).2 (hall entry hentry)
  · intro hall entry hentry
    exact (hp entry).1 (hall _ (hperm.mem_iff.1 (List.mem_map_of_mem hentry)))

/-- The entries are in the order of their newest events, so whether that is the order of creation is a
question about the runs. -/
theorem pairwise_createdAt_iff (hperm : ((listed n events).map Run.asEnqueued).Perm wanted) :
    (listed n events).Pairwise (fun a b => b.createdAt ≤ a.createdAt) ↔ LaterIsYounger events wanted := by
  rw [pairwise_iff_of_pairwise_lt pairwise_listed]
  -- Neither the identifier nor the time depends on the status.
  refine (forall_mem_iff_of_perm hperm fun _ => Iff.rfl).trans
    (forall_congr' fun a => imp_congr_right fun _ => ?_)
  exact forall_mem_iff_of_perm hperm fun _ => Iff.rfl

/-- A listing is exact when the window shows the runs that are wanted and no other, and their newest events
came in the order of their creation. -/
theorem Tells.exact_iff (h : Tells runs events) (hsub : wanted ⊆ runs) (hwanted : wanted.Nodup)
    (hcurrent : ∀ id doc, events.find? (fun doc => doc.runId = id) = some doc →
      c.current id = some (runOf doc)) :
    Exact c wanted (.ok (listed n events)) ↔
      (∀ run ∈ runs, since Document.runId events run.runId < n ↔ run ∈ wanted) ∧
        LaterIsYounger events wanted := by
  rw [← h.perm_iff hsub hwanted]
  constructor
  · rintro ⟨entries, heq, hperm, -, hpairwise⟩
    obtain rfl := Except.ok.inj heq
    exact ⟨hperm, (pairwise_createdAt_iff hperm).1 hpairwise⟩
  · rintro ⟨hperm, hyounger⟩
    refine ⟨_, rfl, hperm, fun entry hentry => ?_, (pairwise_createdAt_iff hperm).2 hyounger⟩
    rcases (mem_listed.1 hentry).1 with ⟨doc, hdoc, hrun⟩
    rw [run_get, hcurrent entry.runId doc hdoc, hrun]

end Window

/-! ## Listing -/

variable {c : Collection}

theorem run_listByRepo (c : Collection) (owner repo : String) :
    (listByRepo owner repo).run Collection.exec c = (.ok (listed 500 (keyed c owner repo)), c) := by
  have hquery : c.query "repo_key" (repoKey owner repo) (some 500) = (keyed c owner repo).take 500 := by
    simp [Collection.query, Collection.limited, Document.field?, keyed]
  calc (listByRepo owner repo).run Collection.exec c
      = (.ok (newestPerRun [] ((c.query "repo_key" (repoKey owner repo) (some 500)).filterMap runFrom)), c) :=
        rfl
    _ = (.ok (listed 500 (keyed c owner repo)), c) := by rw [hquery, listed]

theorem run_listAll (c : Collection) :
    listAll.run Collection.exec c = (.ok (listed 1000 c.docs), c) :=
  rfl

/-! ## Along a history -/

/-- What a call may add: nothing, an event of a run in another status, or the event of a new run. -/
theorem step_cases (c : Collection) (call : Call) :
    (call.created? = none ∧ (step c call).docs = c.docs) ∨
      (∃ run status, call.created? = none ∧ c.current run.runId = some run ∧
        (step c call).docs = toDoc { run with status := status } :: c.docs) ∨
      ∃ run, call.created? = some run ∧ run.asEnqueued = run ∧ (step c call).docs = toDoc run :: c.docs := by
  cases call with
  | enqueue env owner repo => exact Or.inr (Or.inr ⟨newRun env owner repo, rfl, rfl, rfl⟩)
  | listByRepo owner repo => exact Or.inl ⟨rfl, rfl⟩
  | listAll => exact Or.inl ⟨rfl, rfl⟩
  | get runId => exact Or.inl ⟨rfl, rfl⟩
  | claimNextQueued =>
      have hstep : step c .claimNextQueued = (claimNextQueued.run Collection.exec c).2 := by
        simp [step, Call.program]
      -- A claim writes the run it returns, or nothing.
      rcases run_claimNextQueued_cases c with hrun | ⟨_, doc, _, run, _, _, hcurrent, _, _, hrun⟩
      · exact Or.inl ⟨rfl, by rw [hstep, hrun]⟩
      · refine Or.inr (Or.inl ⟨run, .running, rfl, ?_, by rw [hstep, hrun]; rfl⟩)
        exact (Collection.runId_of_current hcurrent).symm ▸ hcurrent
  | setStatus runId status =>
      have hstep : step c (.setStatus runId status) =
          ((setStatus runId status).run Collection.exec c).2 := by
        simp [step, Call.program]
      cases hcurrent : c.current runId with
      | none => exact Or.inl ⟨rfl, by rw [hstep, run_setStatus_none hcurrent]⟩
      | some run =>
          refine Or.inr (Or.inl ⟨run, status, rfl, ?_, by rw [hstep, run_setStatus_some hcurrent]; rfl⟩)
          exact (Collection.runId_of_current hcurrent).symm ▸ hcurrent

/-- The newest event of a run, as an event. -/
theorem exists_doc_of_current {id : String} {run : Run} (h : c.current id = some run) :
    ∃ doc ∈ c.docs, runOf doc = run := by
  rcases Option.bind_eq_some_iff.1 h with ⟨doc, hdoc, hrun⟩
  exact ⟨doc, List.mem_of_find?_eq_some hdoc, Option.some.inj hrun⟩

/-- One call keeps the events and the runs together. -/
theorem Tells.step {runs : List Run} (h : Tells runs c.docs) (call : Call)
    (hfresh : ∀ run, call.created? = some run → run.runId ∉ runs.map Run.runId) :
    Tells (runs ++ call.created?.toList) (step c call).docs := by
  rcases step_cases c call with ⟨hcreated, hdocs⟩ | ⟨run, status, hcreated, hcurrent, hdocs⟩ |
    ⟨run, hcreated, henqueued, hdocs⟩
  · rw [hcreated, hdocs, Option.toList_none, List.append_nil]
    exact h
  · -- A run that is known, in another status.
    rw [hcreated, hdocs, Option.toList_none, List.append_nil]
    rcases exists_doc_of_current hcurrent with ⟨doc, hdoc, rfl⟩
    refine ⟨h.nodup, List.forall_mem_cons.2 ⟨h.told doc hdoc, h.told⟩, fun r hr => ?_,
      List.forall_mem_cons.2 ⟨rfl, h.repoKey⟩⟩
    rcases h.present r hr with ⟨d, hd, hid⟩
    exact ⟨d, List.mem_cons_of_mem _ hd, hid⟩
  · -- A new run, of which this is the only event.
    rw [hcreated, hdocs, Option.toList_some]
    refine ⟨?_, ?_, ?_, List.forall_mem_cons.2 ⟨rfl, h.repoKey⟩⟩
    · rw [List.map_append, List.map_singleton]
      exact List.nodup_append.2 ⟨h.nodup, List.nodup_singleton _, fun id hid id' hid' heq =>
        hfresh run hcreated (List.mem_singleton.1 hid' ▸ heq ▸ hid)⟩
    · refine List.forall_mem_cons.2 ⟨?_, fun doc hdoc => List.mem_append_left _ (h.told doc hdoc)⟩
      exact List.mem_append_right _ (List.mem_singleton.2 henqueued)
    · intro r hr
      rcases List.mem_append.1 hr with hr | hr
      · rcases h.present r hr with ⟨doc, hdoc, hid⟩
        exact ⟨doc, List.mem_cons_of_mem _ hdoc, hid⟩
      · rw [List.mem_singleton.1 hr]
        exact ⟨toDoc run, List.mem_cons_self, rfl⟩

theorem map_runId_enqueued (calls : List Call) :
    (enqueued calls).map Run.runId = ((calls.filterMap Call.env?).map Env.uuid).map ("run_" ++ ·) := by
  induction calls with
  | nil => rfl
  | cons call calls ih =>
      cases call with
      | enqueue env owner repo => exact congrArg (List.cons ("run_" ++ env.uuid)) ih
      | _ => exact ih

theorem nodup_enqueued {calls : List Call} (h : ((calls.filterMap Call.env?).map Env.uuid).Nodup) :
    ((enqueued calls).map Run.runId).Nodup := by
  rw [map_runId_enqueued]
  exact h.map fun _ _ => (String.append_right_inj _).1

/-- After every history the events tell of the runs that were enqueued. -/
theorem tells_after {calls : List Call} (h : ((enqueued calls).map Run.runId).Nodup) :
    Tells (enqueued calls) (after step .empty calls).docs := by
  -- On the calls from the last one back.
  induction calls using List.reverseRecOn with
  | nil => exact ⟨List.nodup_nil, List.forall_mem_nil _, List.forall_mem_nil _, List.forall_mem_nil _⟩
  | append_singleton calls call ih =>
      have hsplit : enqueued (calls ++ [call]) = enqueued calls ++ call.created?.toList := by
        rw [enqueued, List.filterMap_append]
        cases hcreated : call.created? <;> simp [enqueued, hcreated]
      rw [hsplit, List.map_append] at h
      have hnodup := List.nodup_append.1 h
      rw [hsplit, after_append]
      refine (ih hnodup.1).step call fun run hcreated hmem => ?_
      exact hnodup.2.2 run.runId hmem run.runId (by rw [hcreated]; exact List.mem_cons_self) rfl

section Keyed

variable {runs : List Run} {owner repo : String}

/-- The events of a run are all under one key. -/
theorem Tells.repoKey_eq (h : Tells runs c.docs) {a b : Document} (ha : a ∈ c.docs) (hb : b ∈ c.docs)
    (hid : a.runId = b.runId) : a.repoKey = b.repoKey := by
  have hsame : (runOf a).asEnqueued = (runOf b).asEnqueued :=
    List.inj_on_of_nodup_map h.nodup (h.told a ha) (h.told b hb) hid
  have howner : a.owner = b.owner := congrArg Run.owner hsame
  have hrepo : a.repo = b.repo := congrArg Run.repo hsame
  rw [h.repoKey a ha, h.repoKey b hb, howner, hrepo]

theorem Tells.find?_keyed (h : Tells runs c.docs) {id : String} {doc : Document}
    (hdoc : (keyed c owner repo).find? (fun doc => doc.runId = id) = some doc) :
    c.docs.find? (fun doc => doc.runId = id) = some doc := by
  rw [DataMeshRunStore.keyed, List.find?_filter] at hdoc
  rcases List.find?_eq_some_iff_append.1 hdoc with ⟨hboth, newer, older, hdocs, hnewer⟩
  simp only [Bool.and_eq_true, decide_eq_true_eq, Bool.decide_and] at hboth hnewer
  refine List.find?_eq_some_iff_append.2 ⟨decide_eq_true hboth.2, newer, older, hdocs, fun d hd => ?_⟩
  -- A newer event of the run would be under the key as well.
  have hd' := hnewer d hd
  have hmem : ∀ d ∈ newer ++ doc :: older, d ∈ c.docs := fun d hd => hdocs ▸ hd
  by_contra hid
  have hid' : d.runId = id := by simpa using hid
  have hkey := h.repoKey_eq (hmem d (List.mem_append_left _ hd)) (hmem doc (by simp))
    (hid'.trans hboth.2.symm)
  simp [hkey, hboth.1, hid'] at hd'

theorem Tells.keyed (h : Tells runs c.docs) (owner repo : String) :
    Tells (runs.filter fun run => DataMeshRunStore.repoKey run.owner run.repo =
      DataMeshRunStore.repoKey owner repo) (keyed c owner repo) where
  nodup := h.nodup.sublist (List.filter_sublist.map _)
  told := by
    intro doc hdoc
    rcases List.mem_filter.1 hdoc with ⟨hdocs, hkey⟩
    refine List.mem_filter.2 ⟨h.told doc hdocs, ?_⟩
    rwa [h.repoKey doc hdocs] at hkey
  present := by
    intro run hrun
    rcases List.mem_filter.1 hrun with ⟨hruns, hkey⟩
    rcases h.present run hruns with ⟨doc, hdoc, hid⟩
    have hsame : (runOf doc).asEnqueued = run :=
      List.inj_on_of_nodup_map h.nodup (h.told doc hdoc) hruns hid
    refine ⟨doc, List.mem_filter.2 ⟨hdoc, ?_⟩, hid⟩
    rw [h.repoKey doc hdoc]
    rw [← hsame] at hkey
    exact hkey
  repoKey := fun doc hdoc => h.repoKey doc (List.mem_of_mem_filter hdoc)

theorem current_of_find? {id : String} {doc : Document}
    (h : c.docs.find? (fun doc => doc.runId = id) = some doc) : c.current id = some (runOf doc) := by
  rw [Collection.current, h]
  rfl

end Keyed

/-- After every history of calls that create runs with distinct UUIDs: `list_by_repo` is exact when, of the
runs under the joined name, just those of the repository have an event among the newest 500 of these, and
`list_all` when every run has one among the newest 1000; and, for both, when of two runs that are listed the
one with the later newest event was not created before the other. -/
theorem listings_exact_iff (calls : List Call)
    (huuids : ((calls.filterMap Call.env?).map Env.uuid).Nodup) (owner repo : String) :
    let c := after step .empty calls
    (Exact c (enqueuedFor calls owner repo) ((listByRepo owner repo).run Collection.exec c).1 ↔
      (∀ run ∈ enqueued calls, repoKey run.owner run.repo = repoKey owner repo →
        (since Document.runId (keyed c owner repo) run.runId < 500 ↔ run.owner = owner ∧ run.repo = repo)) ∧
      LaterIsYounger (keyed c owner repo) (enqueuedFor calls owner repo)) ∧
    (Exact c (enqueued calls) (listAll.run Collection.exec c).1 ↔
      (∀ run ∈ enqueued calls, since Document.runId c.docs run.runId < 1000) ∧
      LaterIsYounger c.docs (enqueued calls)) := by
  intro c
  have htells : Tells (enqueued calls) c.docs := tells_after (nodup_enqueued huuids)
  have hnodup := htells.nodup_runs
  refine ⟨?_, ?_⟩
  · have hsub : enqueuedFor calls owner repo ⊆ (enqueued calls).filter fun run =>
        repoKey run.owner run.repo = repoKey owner repo := by
      intro run hrun
      rcases List.mem_filter.1 hrun with ⟨hmem, hnames⟩
      have hnames := of_decide_eq_true hnames
      exact List.mem_filter.2 ⟨hmem, decide_eq_true (by rw [hnames.1, hnames.2])⟩
    rw [run_listByRepo, (htells.keyed owner repo).exact_iff hsub (hnodup.filter _)
      fun _ _ hdoc => current_of_find? (htells.find?_keyed hdoc)]
    refine and_congr_left' ?_
    simp only [List.mem_filter, enqueuedFor, decide_eq_true_eq, and_imp]
    refine forall_congr' fun run => imp_congr_right fun hrun => imp_congr_right fun _ => ?_
    rw [and_iff_right hrun]
  · rw [run_listAll, htells.exact_iff (List.Subset.refl _) hnodup fun _ _ => current_of_find?]
    refine and_congr_left' (forall_congr' fun run => imp_congr_right fun hrun => ?_)
    exact iff_true_right hrun

/-- Two runs, of which the younger is claimed last. -/
def inOrder : List Call :=
  [.enqueue ⟨"1", 7⟩ "o" "r", .claimNextQueued, .enqueue ⟨"2", 8⟩ "o" "r", .claimNextQueued]

theorem listings_exact_inOrder :
    Exact (after step .empty inOrder) (enqueuedFor inOrder "o" "r")
        ((listByRepo "o" "r").run Collection.exec (after step .empty inOrder)).1 ∧
      Exact (after step .empty inOrder) (enqueued inOrder)
        (listAll.run Collection.exec (after step .empty inOrder)).1 := by
  have h := listings_exact_iff inOrder (by decide) "o" "r"
  exact ⟨h.1.2 ⟨by decide +kernel, by decide +kernel⟩, h.2.2 ⟨by decide +kernel, by decide +kernel⟩⟩

/-- The older of two runs gets its status last, and the joined name of a repository is that of another. -/
def outOfOrder : List Call :=
  [.enqueue ⟨"1", 7⟩ "a/b" "c", .enqueue ⟨"2", 8⟩ "a/b" "c", .setStatus "run_1" .running]

theorem listings_not_exact :
    ¬ Exact (after step .empty outOfOrder) (enqueuedFor outOfOrder "a/b" "c")
        ((listByRepo "a/b" "c").run Collection.exec (after step .empty outOfOrder)).1 ∧
      ¬ Exact (after step .empty outOfOrder) (enqueuedFor outOfOrder "a" "b/c")
        ((listByRepo "a" "b/c").run Collection.exec (after step .empty outOfOrder)).1 ∧
      ¬ Exact (after step .empty outOfOrder) (enqueued outOfOrder)
        (listAll.run Collection.exec (after step .empty outOfOrder)).1 := by
  refine ⟨?_, ?_, ?_⟩
  · rintro ⟨entries, heq, -, -, hsorted⟩
    have hentries : entries = [⟨"run_1", "a/b", "c", .running, 7⟩, ⟨"run_2", "a/b", "c", .queued, 8⟩] :=
      Except.ok.inj (heq.symm.trans (by decide +kernel))
    subst hentries
    exact absurd hsorted (by decide)
  · rintro ⟨entries, heq, hperm, -, -⟩
    have hentries : entries = [⟨"run_1", "a/b", "c", .running, 7⟩, ⟨"run_2", "a/b", "c", .queued, 8⟩] :=
      Except.ok.inj (heq.symm.trans (by decide +kernel))
    subst hentries
    exact absurd hperm.length_eq (by decide +kernel)
  · rintro ⟨entries, heq, -, -, hsorted⟩
    have hentries : entries = [⟨"run_1", "a/b", "c", .running, 7⟩, ⟨"run_2", "a/b", "c", .queued, 8⟩] :=
      Except.ok.inj (heq.symm.trans (by decide +kernel))
    subst hentries
    exact absurd hsorted (by decide)

end DataMeshRunStore
end Runs
end Aivcs
