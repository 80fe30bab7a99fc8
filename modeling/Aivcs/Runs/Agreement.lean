import Aivcs.Lib.Run
import Aivcs.Runs.Store
import Mathlib.Data.List.Pairwise

/-!
# Runs.Agreement — the durable queue against the one in memory

Called one after the other, the two stores agree on enqueues, status changes and reads: the newest
event of a run is the run.  They part over claims.  The trait promises the oldest queued run; the
durable store looks at the newest hundred queued events, oldest first, and takes the first run it can
still claim, and a run can be claimed once.  So a backlog of more than a hundred events and a run that
is put back in the queue after it was claimed both lead it astray, and nothing else does
(`stores_agree_iff_oldest_reached`).
-/

namespace Aivcs
namespace Runs

open Aivcs.Lib

/-! ## In memory -/

namespace InMemoryRunStore

variable {runs : InMemoryRunStore}

theorem minByCreatedAt_cons {x : Run × Nat} {rest : List (Run × Nat)}
    (h : ∀ y ∈ rest, x.1.createdAt ≤ y.1.createdAt) : minByCreatedAt (x :: rest) = some x := by
  have hmem : ∀ {l : List (Run × Nat)} {y}, minByCreatedAt l = some y → y ∈ l := by
    intro l
    induction l with
    | nil =>
        intro y hy
        cases hy
    | cons z l ih =>
        intro y hy
        unfold minByCreatedAt at hy
        cases hl : minByCreatedAt l with
        | none =>
            rw [hl] at hy
            obtain rfl := Option.some.inj hy
            exact List.mem_cons_self
        | some w =>
            simp only [hl] at hy
            split_ifs at hy with hlt
            · obtain rfl := Option.some.inj hy
              exact List.mem_cons_of_mem _ (ih hl)
            · obtain rfl := Option.some.inj hy
              exact List.mem_cons_self
  unfold minByCreatedAt
  cases hrest : minByCreatedAt rest with
  | none =>
      rfl
  | some y =>
      have hle := h y (hmem hrest)
      exact if_neg (by omega)

theorem update_append {pre post : List Run} {r : Run} (status : RunStatus)
    (hpre : ∀ x ∈ pre, x.runId ≠ r.runId) :
    update r.runId status (pre ++ r :: post) = pre ++ { r with status := status } :: post := by
  induction pre with
  | nil =>
      simp [update]
  | cons x pre ih =>
      rw [List.cons_append, update, if_neg (hpre x List.mem_cons_self),
        ih (fun y hy => hpre y (List.mem_cons_of_mem _ hy)), List.cons_append]

section Keeps

variable {β : Type} {key : Run → β} (hkey : ∀ r status, key { r with status := status } = key r)
include hkey

/-- What does not depend on the status of a run is not changed by an update. -/
theorem map_update (runId : String) (status : RunStatus) (runs : List Run) :
    (update runId status runs).map key = runs.map key := by
  induction runs with
  | nil =>
      rfl
  | cons r runs ih =>
      unfold update
      split_ifs
      · rw [List.map_cons, List.map_cons, hkey]
      · rw [List.map_cons, List.map_cons, ih]

theorem map_modify (i : Nat) (status : RunStatus) (runs : List Run) :
    (runs.modify i fun r => { r with status := status }).map key = runs.map key := by
  induction runs generalizing i with
  | nil =>
      simp
  | cons r runs ih =>
      cases i with
      | zero =>
          simp [hkey]
      | succ i =>
          rw [List.modify_succ_cons, List.map_cons, List.map_cons, ih]

/-- Only an enqueue adds a run. -/
theorem map_inMemory (c : Call) (runs : InMemoryRunStore) :
    (c.inMemory runs).2.map key =
      runs.map key ++ match c with
        | .enqueue env owner repo => [key (newRun env owner repo)]
        | _ => [] := by
  cases c with
  | enqueue env owner repo =>
      exact List.map_append
  | claimNextQueued =>
      show (runs.claimNextQueued).2.map key = runs.map key ++ []
      unfold claimNextQueued
      rw [List.append_nil]
      cases oldestQueued runs with
      | none =>
          rfl
      | some p =>
          exact map_modify hkey p.2 .running runs
  | setStatus runId status =>
      show (runs.setStatus runId status).2.map key = runs.map key ++ []
      unfold setStatus
      rw [List.append_nil]
      split_ifs
      · exact map_update hkey runId status runs
      · rfl
  | _ =>
      exact (List.append_nil _).symm

end Keeps

/-- Updating changes the run with the id and no other. -/
theorem find?_update (runId id : String) (status : RunStatus) (runs : List Run) :
    (update runId status runs).find? (fun r => r.runId = id) =
      (runs.find? fun r => r.runId = id).map fun r =>
        if id = runId then { r with status := status } else r := by
  induction runs with
  | nil =>
      rfl
  | cons r runs ih =>
      unfold update
      by_cases hr : r.runId = runId
      · rw [if_pos hr, List.find?_cons, List.find?_cons]
        by_cases hid : r.runId = id
        · have heq : id = runId := hid.symm.trans hr
          simp [hid, heq]
        · have hne : id ≠ runId := fun heq => hid (hr.trans heq.symm)
          simp [hid, hne]
      · rw [if_neg hr, List.find?_cons, List.find?_cons, ih]
        by_cases hid : r.runId = id
        · have hne : id ≠ runId := fun heq => hr (hid.trans heq)
          simp [hid, hne]
        · simp [hid]

/-- Nothing queued, nothing claimed. -/
theorem claimNextQueued_none (h : ∀ r ∈ runs, r.status ≠ .queued) :
    runs.claimNextQueued = (.ok none, runs) := by
  have hfilter : (runs.zipIdx.filter fun p => p.1.status = .queued) = [] := by
    rw [List.filter_eq_nil_iff]
    rintro ⟨r, i⟩ hp
    simpa using h r (List.fst_mem_of_mem_zipIdx hp)
  unfold claimNextQueued oldestQueued
  rw [hfilter]
  rfl

/-- With runs in the order of their creation, the first queued one is claimed. -/
theorem claimNextQueued_some {pre post : List Run} {r : Run} (hruns : runs = pre ++ r :: post)
    (hpre : ∀ x ∈ pre, x.status ≠ .queued) (hr : r.status = .queued)
    (hids : ∀ x ∈ pre, x.runId ≠ r.runId) (hpost : ∀ x ∈ post, r.createdAt ≤ x.createdAt) :
    runs.claimNextQueued =
      (.ok (some { r with status := .running }), update r.runId .running runs) := by
  have hfirst : (pre.zipIdx.filter fun p => p.1.status = .queued) = [] := by
    rw [List.filter_eq_nil_iff]
    rintro ⟨x, i⟩ hp
    simpa using hpre x (List.fst_mem_of_mem_zipIdx hp)
  have holdest : oldestQueued runs = some (r, pre.length) := by
    unfold oldestQueued
    rw [hruns, List.zipIdx_append, List.filter_append, hfirst, List.nil_append, List.zipIdx_cons,
      List.filter_cons_of_pos (by simpa using hr), Nat.zero_add]
    refine minByCreatedAt_cons ?_
    rintro ⟨y, i⟩ hy
    exact hpost y (List.fst_mem_of_mem_zipIdx (List.mem_of_mem_filter hy))
  have hmodify : runs.modify pre.length (fun r => { r with status := .running }) =
      pre ++ { r with status := .running } :: post := by
    rw [hruns, List.modify_eq_take_cons_drop (by simp)]
    simp
  unfold claimNextQueued
  rw [holdest]
  simp only [hmodify]
  rw [hruns, update_append .running hids]
  simp

end InMemoryRunStore

/-! ## On data-mesh -/

namespace Collection

variable {c : Collection}

/-- The newest event of a run. -/
def current (c : Collection) (runId : String) : Option Run :=
  (c.docs.find? fun doc => doc.runId = runId).bind DataMeshRunStore.runFrom

/-- The newest hundred queued events, oldest first. -/
def window (c : Collection) : List Document :=
  (c.query "status" "queued" (some 100)).reverse

/-- The run is queued and has not been claimed. -/
def Claimable (c : Collection) (runId : String) : Prop :=
  (∃ r, c.current runId = some r ∧ r.status = .queued) ∧
    DataMeshRunStore.claimKey runId ∉ c.keys

/-- An event has been added. -/
def add (c : Collection) (run : Run) : Collection :=
  { c with docs := DataMeshRunStore.toDoc run :: c.docs }

/-- The run has been claimed. -/
def claim (c : Collection) (run : Run) : Collection :=
  { docs := DataMeshRunStore.toDoc { run with status := .running } :: c.docs
    keys := DataMeshRunStore.claimKey run.runId :: c.keys }

theorem runId_of_current {runId : String} {r : Run} (h : c.current runId = some r) :
    r.runId = runId := by
  rcases Option.bind_eq_some_iff.1 h with ⟨doc, hdoc, hrun⟩
  obtain rfl := Option.some.inj hrun
  simpa using List.find?_some hdoc

theorem find?_cons_toDoc (run : Run) (docs : List Document) (id : String) :
    ((DataMeshRunStore.toDoc run :: docs).find? fun doc => doc.runId = id) =
      if run.runId = id then some (DataMeshRunStore.toDoc run)
      else docs.find? fun doc => doc.runId = id := by
  rw [List.find?_cons]
  by_cases hid : run.runId = id <;> simp [DataMeshRunStore.toDoc, hid]

end Collection

namespace DataMeshRunStore

variable {c : Collection}

theorem run_get (runId : String) :
    (get runId).run Collection.exec c = (.ok (c.current runId), c) := by
  have hhead : (c.query "run_id" runId (some 1)).head? = c.docs.find? fun doc => doc.runId = runId := by
    simp [Collection.query, Collection.limited, Document.field?, List.head?_take, List.head?_filter]
  simp [get, backend, Client.queryDocuments, Proc.perform, Proc.andThen, Proc.bind, Collection.exec,
    hhead, Collection.current]

theorem run_setStatus_none {runId : String} (h : c.current runId = none) (status : RunStatus) :
    (setStatus runId status).run Collection.exec c = (.ok false, c) := by
  have hget := run_get (c := c) runId
  rw [h] at hget
  exact Proc.run_andThen_ok Collection.exec hget

theorem run_setStatus_some {runId : String} {r : Run} (h : c.current runId = some r)
    (status : RunStatus) :
    (setStatus runId status).run Collection.exec c =
      (.ok true, c.add { r with status := status }) := by
  have hget := run_get (c := c) runId
  rw [h] at hget
  exact Proc.run_andThen_ok Collection.exec hget

/-- One candidate that cannot be claimed is skipped and nothing is written. -/
theorem run_claimFrom_skip {cand : Run} {cands : List Run} {seen : List String}
    (hseen : cand.runId ∉ seen) (h : ¬ c.Claimable cand.runId) :
    (claimFrom seen (cand :: cands)).run Collection.exec c =
      (claimFrom (cand.runId :: seen) cands).run Collection.exec c := by
  have hget := run_get (c := c) cand.runId
  rw [claimFrom, if_neg hseen, Proc.run_andThen_ok Collection.exec hget]
  cases hcurrent : c.current cand.runId with
  | none =>
      rfl
  | some r =>
      dsimp only
      split_ifs with hstatus
      · rfl
      · have hid := Collection.runId_of_current hcurrent
        have hspent : claimKey r.runId ∈ c.keys := by
          by_contra hkey
          exact h ⟨⟨r, hcurrent, not_not.1 hstatus⟩, hid ▸ hkey⟩
        have hexec : Collection.exec (.createDocumentIdempotent (claimKey r.runId)
            (toDoc { r with status := .running })) c = (.ok ⟨"exists"⟩, c) :=
          if_pos hspent
        have hrun : (backend (Client.createDocumentIdempotent (claimKey r.runId)
            (toDoc { r with status := .running }))).run Collection.exec c =
            (.ok ⟨"exists"⟩, c) := by
          simp [backend, Client.createDocumentIdempotent, Proc.perform, hexec]
        rw [Proc.run_andThen_ok Collection.exec hrun, if_pos rfl]

/-- The first candidate that can be claimed is claimed. -/
theorem run_claimFrom_take {cand r : Run} {cands : List Run} {seen : List String}
    (hseen : cand.runId ∉ seen) (hcurrent : c.current cand.runId = some r)
    (hstatus : r.status = .queued) (hkey : claimKey r.runId ∉ c.keys) :
    (claimFrom seen (cand :: cands)).run Collection.exec c =
      (.ok (some { r with status := .running }), c.claim r) := by
  have hget := run_get (c := c) cand.runId
  rw [hcurrent] at hget
  have hexec : Collection.exec (.createDocumentIdempotent (claimKey r.runId)
      (toDoc { r with status := .running })) c = (.ok ⟨"created"⟩, c.claim r) :=
    if_neg hkey
  have hrun : (backend (Client.createDocumentIdempotent (claimKey r.runId)
      (toDoc { r with status := .running }))).run Collection.exec c =
      (.ok ⟨"created"⟩, c.claim r) := by
    simp [backend, Client.createDocumentIdempotent, Proc.perform, hexec]
  rw [claimFrom, if_neg hseen, Proc.run_andThen_ok Collection.exec hget]
  simp only [hstatus, ne_eq, not_true_eq_false, if_false]
  rw [Proc.run_andThen_ok Collection.exec hrun, if_neg (by decide), Proc.run_ret]

theorem run_claimFrom_none {cands : List Run} {seen : List String}
    (h : ∀ cand ∈ cands, ¬ c.Claimable cand.runId) :
    (claimFrom seen cands).run Collection.exec c = (.ok none, c) := by
  induction cands generalizing seen with
  | nil =>
      rfl
  | cons cand cands ih =>
      have hrest : ∀ cand ∈ cands, ¬ c.Claimable cand.runId :=
        fun x hx => h x (List.mem_cons_of_mem _ hx)
      by_cases hseen : cand.runId ∈ seen
      · rw [claimFrom, if_pos hseen]
        exact ih hrest
      · rw [run_claimFrom_skip hseen (h cand List.mem_cons_self)]
        exact ih hrest

theorem run_claimFrom_some {pre post : List Run} {cand r : Run} {seen : List String}
    (hseen : ∀ runId ∈ seen, ¬ c.Claimable runId) (hpre : ∀ x ∈ pre, ¬ c.Claimable x.runId)
    (hcurrent : c.current cand.runId = some r) (hstatus : r.status = .queued)
    (hkey : claimKey r.runId ∉ c.keys) :
    (claimFrom seen (pre ++ cand :: post)).run Collection.exec c =
      (.ok (some { r with status := .running }), c.claim r) := by
  -- What has been seen cannot be claimed, so the candidate has not been seen when its turn comes.
  induction pre generalizing seen with
  | nil =>
      refine run_claimFrom_take (fun hmem => hseen _ hmem ?_) hcurrent hstatus hkey
      exact ⟨⟨r, hcurrent, hstatus⟩, Collection.runId_of_current hcurrent ▸ hkey⟩
  | cons x pre ih =>
      have hrest : ∀ y ∈ pre, ¬ c.Claimable y.runId :=
        fun y hy => hpre y (List.mem_cons_of_mem _ hy)
      by_cases hmem : x.runId ∈ seen
      · rw [List.cons_append, claimFrom, if_pos hmem]
        exact ih hseen hrest
      · have hx := hpre x List.mem_cons_self
        rw [List.cons_append, run_claimFrom_skip hmem hx]
        refine ih ?_ hrest
        intro runId hid
        rcases List.mem_cons.1 hid with rfl | hid
        · exact hx
        · exact hseen runId hid

/-- The run a document tells of. -/
def runOf (doc : Document) : Run :=
  { runId := doc.runId, owner := doc.owner, repo := doc.repo, status := doc.status
    createdAt := doc.createdAt }

theorem run_claimNextQueued :
    claimNextQueued.run Collection.exec c =
      (claimFrom [] (c.window.map runOf)).run Collection.exec c := by
  have hcands : ∀ docs : List Document, (docs.filterMap runFrom).reverse = docs.reverse.map runOf := by
    intro docs
    rw [List.map_reverse]
    exact congrArg List.reverse (congrFun List.filterMap_eq_map' docs)
  unfold claimNextQueued Collection.window
  rw [← hcands]
  rfl

theorem run_claimNextQueued_none (h : ∀ doc ∈ c.window, ¬ c.Claimable doc.runId) :
    claimNextQueued.run Collection.exec c = (.ok none, c) := by
  rw [run_claimNextQueued]
  refine run_claimFrom_none ?_
  intro cand hcand
  rcases List.mem_map.1 hcand with ⟨doc, hdoc, rfl⟩
  exact h doc hdoc

theorem run_claimNextQueued_some {pre post : List Document} {doc : Document} {r : Run}
    (hwindow : c.window = pre ++ doc :: post) (hpre : ∀ d ∈ pre, ¬ c.Claimable d.runId)
    (hcurrent : c.current doc.runId = some r) (hstatus : r.status = .queued)
    (hkey : claimKey r.runId ∉ c.keys) :
    claimNextQueued.run Collection.exec c =
      (.ok (some { r with status := .running }), c.claim r) := by
  rw [run_claimNextQueued, hwindow, List.map_append, List.map_cons]
  refine run_claimFrom_some (fun _ hid => absurd hid List.not_mem_nil) ?_ hcurrent hstatus hkey
  intro x hx
  rcases List.mem_map.1 hx with ⟨d, hd, rfl⟩
  exact hpre d hd

/-- A claim returns nothing, or a queued run that had not been claimed, whose event came before those
of all other such runs. -/
theorem run_claimNextQueued_cases (c : Collection) :
    claimNextQueued.run Collection.exec c = (.ok none, c) ∨
      ∃ pre doc post r, c.window = pre ++ doc :: post ∧ (∀ d ∈ pre, ¬ c.Claimable d.runId) ∧
        c.current doc.runId = some r ∧ r.status = .queued ∧ claimKey r.runId ∉ c.keys ∧
        claimNextQueued.run Collection.exec c =
          (.ok (some { r with status := .running }), c.claim r) := by
  classical
  cases hfirst : c.window.find? fun doc => c.Claimable doc.runId with
  | none =>
      refine Or.inl (run_claimNextQueued_none ?_)
      intro doc hdoc
      simpa using List.find?_eq_none.1 hfirst doc hdoc
  | some doc =>
      rcases List.find?_eq_some_iff_append.1 hfirst with ⟨hdoc, pre, post, hwindow, hpre⟩
      have hpre' : ∀ d ∈ pre, ¬ c.Claimable d.runId := fun d hd => by simpa using hpre d hd
      rcases of_decide_eq_true hdoc with ⟨⟨r, hcurrent, hstatus⟩, hkey⟩
      have hkey' : claimKey r.runId ∉ c.keys := Collection.runId_of_current hcurrent ▸ hkey
      exact Or.inr ⟨pre, doc, post, r, hwindow, hpre', hcurrent, hstatus, hkey',
        run_claimNextQueued_some hwindow hpre' hcurrent hstatus hkey'⟩

end DataMeshRunStore

/-! ## Both stores -/

/-- What the run a call creates is made from. -/
def Call.env? : Call → Option Env
  | .enqueue env _ _ => some env
  | _ => none

/-- The calls other than the listings. -/
def Call.Basic : Call → Prop
  | .listByRepo _ _ | .listAll => False
  | _ => True

/-- A durable store and one in memory that are sent the same calls. -/
structure Both where
  mesh : Collection
  mem : InMemoryRunStore

namespace Both

def start : Both := ⟨.empty, []⟩

/-- What the durable store returns. -/
def meshReply (s : Both) (call : Call) : Reply :=
  (call.program.run Collection.exec s.mesh).1

def memReply (s : Both) (call : Call) : Reply :=
  (call.inMemory s.mem).1

def step (s : Both) (call : Call) : Both :=
  ⟨(call.program.run Collection.exec s.mesh).2, (call.inMemory s.mem).2⟩

/-- The run a call creates is told apart by its UUID and is younger than all others. -/
def Fresh (s : Both) (call : Call) : Prop :=
  ∀ env, call.env? = some env → ∀ r ∈ s.mem, r.runId ≠ "run_" ++ env.uuid ∧ r.createdAt < env.now

/-- The runs in memory are in the order of their creation, each with its own id, and the newest event
of a run is the run. -/
structure Corresponds (s : Both) : Prop where
  sorted : (s.mem.map Run.createdAt).Pairwise (· < ·)
  nodup : (s.mem.map Run.runId).Nodup
  newest : ∀ id, s.mesh.current id = s.mem.find? fun r => r.runId = id

theorem corresponds_start : start.Corresponds where
  sorted := List.Pairwise.nil
  nodup := List.nodup_nil
  newest := by
    intro id
    rfl

variable {s : Both}

namespace Corresponds

/-- A status change on both sides. -/
theorem update (h : s.Corresponds) {r : Run} (hr : s.mesh.current r.runId = some r)
    (status : RunStatus) (keys : List String) :
    Both.Corresponds ⟨⟨DataMeshRunStore.toDoc { r with status := status } :: s.mesh.docs, keys⟩,
      InMemoryRunStore.update r.runId status s.mem⟩ := by
  refine ⟨?_, ?_, ?_⟩
  · rw [InMemoryRunStore.map_update fun _ _ => rfl]
    exact h.sorted
  · rw [InMemoryRunStore.map_update fun _ _ => rfl]
    exact h.nodup
  · intro id
    rw [InMemoryRunStore.find?_update, ← h.newest id, Collection.current, Collection.find?_cons_toDoc]
    by_cases hid : r.runId = id
    · subst hid
      rw [if_pos rfl, hr]
      simp
    · have hne : id ≠ r.runId := fun heq => hid heq.symm
      rw [if_neg hid, ← Collection.current]
      simp [hne]

theorem enqueue (h : s.Corresponds) {env : Env} {owner repo : String}
    (hfresh : s.Fresh (.enqueue env owner repo)) :
    Both.Corresponds ⟨s.mesh.add (newRun env owner repo), s.mem ++ [newRun env owner repo]⟩ := by
  have hnew := hfresh env rfl
  refine ⟨?_, ?_, ?_⟩
  · rw [List.map_append, List.pairwise_append]
    refine ⟨h.sorted, List.pairwise_singleton _ _, ?_⟩
    intro a ha b hb
    rcases List.mem_map.1 ha with ⟨r, hr, rfl⟩
    rw [List.mem_singleton.1 hb]
    exact (hnew r hr).2
  · rw [List.map_append, List.nodup_append]
    refine ⟨h.nodup, List.nodup_cons.2 ⟨List.not_mem_nil, List.nodup_nil⟩, ?_⟩
    intro a ha b hb
    rcases List.mem_map.1 ha with ⟨r, hr, rfl⟩
    rw [List.mem_singleton.1 hb]
    exact (hnew r hr).1
  · intro id
    rw [List.find?_append, ← h.newest id, Collection.current, Collection.add,
      Collection.find?_cons_toDoc]
    by_cases hid : (newRun env owner repo).runId = id
    · subst hid
      have hnone : s.mesh.current (newRun env owner repo).runId = none := by
        rw [h.newest, List.find?_eq_none]
        intro r hr heq
        exact (hnew r hr).1 (of_decide_eq_true heq)
      rw [if_pos rfl, hnone]
      simp
    · rw [if_neg hid, ← Collection.current]
      simp [hid]

/-- A run in memory is what its newest event says. -/
theorem current_of_mem (h : s.Corresponds) {r : Run} (hr : r ∈ s.mem) :
    s.mesh.current r.runId = some r := by
  rw [h.newest]
  rcases List.append_of_mem hr with ⟨pre, post, hmem⟩
  have hids := h.nodup
  rw [hmem, List.map_append, List.map_cons, List.nodup_append] at hids
  have hpre : (pre.find? fun x => x.runId = r.runId) = none := by
    rw [List.find?_eq_none]
    intro x hx heq
    exact hids.2.2 x.runId (List.mem_map_of_mem hx) r.runId List.mem_cons_self (of_decide_eq_true heq)
  rw [hmem, List.find?_append, hpre]
  simp

theorem claimable_iff (h : s.Corresponds) (id : String) :
    s.mesh.Claimable id ↔ (∃ r ∈ s.mem, r.runId = id ∧ r.status = .queued) ∧
      DataMeshRunStore.claimKey id ∉ s.mesh.keys := by
  unfold Collection.Claimable
  refine and_congr_left fun _ => ?_
  constructor
  · rintro ⟨r, hr, hstatus⟩
    have hid := Collection.runId_of_current hr
    rw [h.newest] at hr
    exact ⟨r, List.mem_of_find?_eq_some hr, hid, hstatus⟩
  · rintro ⟨r, hr, rfl, hstatus⟩
    exact ⟨r, h.current_of_mem hr, hstatus⟩

/-- Either nothing is queued, or the runs before some queued one are not, and it is the oldest. -/
theorem queued_cases (h : s.Corresponds) :
    (∀ r ∈ s.mem, r.status ≠ .queued) ∨
      ∃ pre r post, s.mem = pre ++ r :: post ∧ (∀ x ∈ pre, x.status ≠ .queued) ∧
        r.status = .queued ∧ (∀ x ∈ pre, x.runId ≠ r.runId) ∧
        ∀ x ∈ post, r.createdAt < x.createdAt := by
  cases hfirst : s.mem.find? fun r => r.status = .queued with
  | none =>
      refine Or.inl fun r hr => ?_
      simpa using List.find?_eq_none.1 hfirst r hr
  | some r =>
      rcases List.find?_eq_some_iff_append.1 hfirst with ⟨hr, pre, post, hmem, hpre⟩
      have hids := h.nodup
      have hsorted := h.sorted
      rw [hmem, List.map_append, List.map_cons] at hids hsorted
      refine Or.inr ⟨pre, r, post, hmem, ?_, of_decide_eq_true hr, ?_, ?_⟩
      · intro x hx
        simpa using hpre x hx
      · intro x hx
        exact (List.nodup_append.1 hids).2.2 x.runId (List.mem_map_of_mem hx) r.runId
          List.mem_cons_self
      · intro x hx
        exact (List.pairwise_cons.1 (List.pairwise_append.1 hsorted).2.1).1 x.createdAt
          (List.mem_map_of_mem hx)

end Corresponds

/-! ## Where claims agree -/

/-- The reply to a claim as the trait documents it: the oldest queued run, now running, or nothing when
none is queued. -/
def AsDocumented (runs : List Run) : Reply → Prop
  | .claimed (.ok none) => ∀ r ∈ runs, r.status ≠ .queued
  | .claimed (.ok (some run)) =>
      ∃ r ∈ runs, r.status = .queued ∧
        (∀ r' ∈ runs, r'.status = .queued → r.createdAt ≤ r'.createdAt) ∧
        run = { r with status := .running }
  | _ => True

/-- The call is answered alike, and a claim as documented. -/
def Agree (s : Both) (call : Call) : Prop :=
  s.meshReply call = s.memReply call ∧ AsDocumented s.mem (s.meshReply call)

/-- When a claim is made, the oldest queued run has not been claimed before, and among the newest
hundred queued events one of its own comes before all events of other queued runs that have not been
claimed. -/
def OldestReached (s : Both) : Call → Prop
  | .claimNextQueued =>
      ∀ r ∈ s.mem, r.status = .queued →
        (∀ r' ∈ s.mem, r'.status = .queued → r.createdAt ≤ r'.createdAt) →
        DataMeshRunStore.claimKey r.runId ∉ s.mesh.keys ∧
          ∃ pre doc post, s.mesh.window = pre ++ doc :: post ∧ doc.runId = r.runId ∧
            ∀ d ∈ pre, ∀ r' ∈ s.mem, r'.runId = d.runId → r'.status = .queued →
              DataMeshRunStore.claimKey r'.runId ∈ s.mesh.keys
  | _ => True

namespace Corresponds

/-- The run before which none is queued is the oldest of those that are. -/
theorem eq_of_oldest {pre post : List Run} {r r' : Run} (hmem : s.mem = pre ++ r :: post)
    (hpre : ∀ x ∈ pre, x.status ≠ .queued) (hr : r.status = .queued)
    (hpost : ∀ x ∈ post, r.createdAt < x.createdAt) (hr' : r' ∈ s.mem) (hstatus : r'.status = .queued)
    (holdest : ∀ x ∈ s.mem, x.status = .queued → r'.createdAt ≤ x.createdAt) : r' = r := by
  rw [hmem] at hr' holdest
  rcases List.mem_append.1 hr' with hr' | hr'
  · exact absurd hstatus (hpre r' hr')
  · rcases List.mem_cons.1 hr' with rfl | hr'
    · rfl
    · have hle := holdest r (by simp) hr
      exact absurd (hpost r' hr') (by omega)

/-- Stores that both answer a call in one way agree on it, if the answer is as documented. -/
theorem agree_of_run (c : Call) (reply : Reply) (mesh : Collection) (mem : InMemoryRunStore)
    (hmesh : c.program.run Collection.exec s.mesh = (reply, mesh))
    (hmem : c.inMemory s.mem = (reply, mem)) (hdoc : AsDocumented s.mem reply) :
    s.Agree c ∧ s.step c = ⟨mesh, mem⟩ := by
  have hmeshReply : s.meshReply c = reply := by
    rw [meshReply, hmesh]
  have hmemReply : s.memReply c = reply := by
    rw [memReply, hmem]
  refine ⟨⟨hmeshReply.trans hmemReply.symm, ?_⟩, ?_⟩
  · rwa [hmeshReply]
  · rw [step, hmesh, hmem]

/-- A claim while nothing is queued. -/
theorem claim_none (h : s.Corresponds) (hnone : ∀ r ∈ s.mem, r.status ≠ .queued) :
    s.Agree .claimNextQueued ∧ s.OldestReached .claimNextQueued ∧
      s.step .claimNextQueued = s := by
  have hmesh : DataMeshRunStore.claimNextQueued.run Collection.exec s.mesh = (.ok none, s.mesh) := by
    refine DataMeshRunStore.run_claimNextQueued_none ?_
    intro doc _ hclaimable
    rcases ((h.claimable_iff doc.runId).1 hclaimable).1 with ⟨r, hr, -, hstatus⟩
    exact hnone r hr hstatus
  have hmem := InMemoryRunStore.claimNextQueued_none hnone
  rcases agree_of_run (s := s) .claimNextQueued (.claimed (.ok none)) s.mesh s.mem
    (by simp [Call.program, hmesh]) (by simp [Call.inMemory, hmem]) hnone with ⟨hagree, hstep⟩
  refine ⟨hagree, ?_, hstep⟩
  intro r hr hstatus
  exact absurd hstatus (hnone r hr)

/-- A claim while some run is queued: the stores agree exactly when the durable one gets to it. -/
theorem claim_some (h : s.Corresponds) {pre post : List Run} {r : Run}
    (hmem : s.mem = pre ++ r :: post) (hpre : ∀ x ∈ pre, x.status ≠ .queued)
    (hr : r.status = .queued) (hids : ∀ x ∈ pre, x.runId ≠ r.runId)
    (hpost : ∀ x ∈ post, r.createdAt < x.createdAt) :
    (s.Agree .claimNextQueued ↔ s.OldestReached .claimNextQueued) ∧
      (s.OldestReached .claimNextQueued → (s.step .claimNextQueued).Corresponds) := by
  have hmemory := InMemoryRunStore.claimNextQueued_some hmem hpre hr hids (fun x hx => (hpost x hx).le)
  have hmemRun : r ∈ s.mem := by simp [hmem]
  have hcurrent := h.current_of_mem hmemRun
  have holdest : ∀ x ∈ s.mem, x.status = .queued → r.createdAt ≤ x.createdAt := by
    intro x hx hstatus
    rw [hmem] at hx
    rcases List.mem_append.1 hx with hx | hx
    · exact absurd hstatus (hpre x hx)
    · rcases List.mem_cons.1 hx with rfl | hx
      · exact le_rfl
      · exact (hpost x hx).le
  have hmesh : s.OldestReached .claimNextQueued →
      DataMeshRunStore.claimNextQueued.run Collection.exec s.mesh =
        (.ok (some { r with status := .running }), s.mesh.claim r) := by
    intro hreached
    rcases hreached r hmemRun hr holdest with ⟨hkey, before, doc, later, hwindow, hid, hbefore⟩
    refine DataMeshRunStore.run_claimNextQueued_some hwindow ?_ (hid ▸ hcurrent) hr hkey
    intro d hd hclaimable
    rcases (h.claimable_iff d.runId).1 hclaimable with ⟨⟨x, hx, hxid, hxstatus⟩, hxkey⟩
    exact hxkey (hxid ▸ hbefore d hd x hx hxid hxstatus)
  have hagree (hreached : s.OldestReached .claimNextQueued) :=
    agree_of_run (s := s) .claimNextQueued (.claimed (.ok (some { r with status := .running })))
      (s.mesh.claim r) (InMemoryRunStore.update r.runId .running s.mem)
      (by simp [Call.program, hmesh hreached]) (by simp [Call.inMemory, hmemory])
      ⟨r, hmemRun, hr, holdest, rfl⟩
  refine ⟨⟨?_, fun hreached => (hagree hreached).1⟩, ?_⟩
  · rintro ⟨hreply, -⟩ r' hr' hstatus' holdest'
    obtain rfl := eq_of_oldest hmem hpre hr hpost hr' hstatus' holdest'
    rcases DataMeshRunStore.run_claimNextQueued_cases s.mesh with
      hnothing | ⟨before, doc, later, x, hwindow, hbefore, hx, hxstatus, hxkey, hrun⟩
    · simp [meshReply, memReply, Call.program, Call.inMemory, hnothing, hmemory] at hreply
    · -- Both stores returned one run, and both had it queued.
      simp only [meshReply, memReply, Call.program, Call.inMemory, Proc.run_bind, hrun, hmemory,
        Function.comp, Proc.run_ret, Prod.map, Reply.claimed.injEq, Except.ok.injEq,
        Option.some.injEq, Run.mk.injEq] at hreply
      have hxid : x.runId = r'.runId := hreply.1
      have hdoc : doc.runId = r'.runId := (Collection.runId_of_current hx).symm.trans hxid
      refine ⟨hxid ▸ hxkey, before, doc, later, hwindow, hdoc, ?_⟩
      intro d hd y hy hyid hystatus
      by_contra hykey
      exact hbefore d hd ((h.claimable_iff d.runId).2 ⟨⟨y, hy, hyid, hystatus⟩, hyid ▸ hykey⟩)
  · intro hreached
    rw [(hagree hreached).2]
    exact h.update hcurrent .running _

/-- One call: all but a claim are answered alike, and where the stores agree they go on to
correspond. -/
theorem call (h : s.Corresponds) {c : Call} (hfresh : s.Fresh c) (hbasic : c.Basic) :
    (s.Agree c ↔ s.OldestReached c) ∧ (s.OldestReached c → (s.step c).Corresponds) := by
  cases c with
  | enqueue env owner repo =>
      exact ⟨iff_of_true ⟨rfl, trivial⟩ trivial, fun _ => h.enqueue hfresh⟩
  | listByRepo owner repo =>
      cases hbasic
  | listAll =>
      cases hbasic
  | get runId =>
      have hrun := DataMeshRunStore.run_get (c := s.mesh) runId
      rcases agree_of_run (s := s) (.get runId) (.found (.ok (s.mesh.current runId))) s.mesh s.mem
        (by simp [Call.program, hrun]) (by simp [Call.inMemory, InMemoryRunStore.get, h.newest])
        trivial with ⟨hagree, hstep⟩
      exact ⟨iff_of_true hagree trivial, fun _ => hstep.symm ▸ h⟩
  | claimNextQueued =>
      rcases h.queued_cases with hnone | ⟨pre, r, post, hmem, hpre, hr, hids, hpost⟩
      · rcases h.claim_none hnone with ⟨hagree, hreached, hstep⟩
        exact ⟨iff_of_true hagree hreached, fun _ => hstep.symm ▸ h⟩
      · exact h.claim_some hmem hpre hr hids hpost
  | setStatus runId status =>
      cases hcurrent : s.mesh.current runId with
      | none =>
          have hrun := DataMeshRunStore.run_setStatus_none hcurrent status
          have hany : (s.mem.any fun r => r.runId = runId) = false := by
            rw [h.newest, List.find?_eq_none] at hcurrent
            rw [List.any_eq_false]
            exact hcurrent
          have hmem : s.mem.setStatus runId status = (.ok false, s.mem) := if_neg (by simp [hany])
          rcases agree_of_run (s := s) (.setStatus runId status) (.updated (.ok false)) s.mesh s.mem
            (by simp [Call.program, hrun]) (by simp [Call.inMemory, hmem]) trivial with
            ⟨hagree, hstep⟩
          exact ⟨iff_of_true hagree trivial, fun _ => hstep.symm ▸ h⟩
      | some r =>
          have hrun := DataMeshRunStore.run_setStatus_some hcurrent status
          have hid := Collection.runId_of_current hcurrent
          have hany : (s.mem.any fun r => r.runId = runId) = true := by
            rw [h.newest] at hcurrent
            exact List.any_eq_true.2 ⟨r, List.mem_of_find?_eq_some hcurrent, by simp [hid]⟩
          have hmem : s.mem.setStatus runId status =
              (.ok true, InMemoryRunStore.update runId status s.mem) := if_pos (by simp [hany])
          rcases agree_of_run (s := s) (.setStatus runId status) (.updated (.ok true))
            (s.mesh.add { r with status := status }) (InMemoryRunStore.update runId status s.mem)
            (by simp [Call.program, hrun]) (by simp [Call.inMemory, hmem]) trivial with
            ⟨hagree, hstep⟩
          refine ⟨iff_of_true hagree trivial, fun _ => ?_⟩
          rw [hstep, ← hid]
          exact h.update (hid ▸ hcurrent) status s.mesh.keys

end Corresponds

/-! ## Along a run -/

/-- The runs in memory are those the calls have created. -/
theorem created (calls : List Call) :
    (after step start calls).mem.map (fun r => (r.runId, r.createdAt)) =
      (calls.filterMap Call.env?).map fun env => ("run_" ++ env.uuid, env.now) := by
  -- On the calls from the last one back.
  induction calls using List.reverseRecOn with
  | nil =>
      rfl
  | append_singleton calls c ih =>
      rw [after_append, List.filterMap_append, List.map_append, ← ih]
      show ((c.inMemory (after step start calls).mem).2.map fun r => (r.runId, r.createdAt)) = _
      rw [InMemoryRunStore.map_inMemory fun _ _ => rfl]
      cases c <;> rfl

end Both

open Both

/-- Along every sequence of calls that create runs with distinct UUIDs at increasing times, the stores
answer every call alike and every claim as documented if and only if each claim that finds runs queued
gets to the oldest: it has not been claimed before, and among the newest hundred queued events one of
its own comes before those of all other queued runs that have not been claimed. -/
theorem stores_agree_iff_oldest_reached (calls : List Call) (hbasic : ∀ c ∈ calls, c.Basic)
    (huuids : ((calls.filterMap Call.env?).map Env.uuid).Nodup)
    (hclock : ((calls.filterMap Call.env?).map Env.now).Pairwise (· < ·)) :
    EachStep step Agree start calls ↔ EachStep step OldestReached start calls := by
  have hfresh : EachStep step (fun s c => s.Fresh c ∧ c.Basic) start calls := by
    intro pre c hpre
    refine ⟨?_, hbasic c (hpre.subset (by simp))⟩
    intro env henv r hr
    have hmem : (r.runId, r.createdAt) ∈
        (pre.filterMap Call.env?).map fun env => ("run_" ++ env.uuid, env.now) := by
      rw [← created pre]
      exact List.mem_map_of_mem hr
    rcases List.mem_map.1 hmem with ⟨env', henv', heq⟩
    rcases Prod.mk.inj heq with ⟨hid, hat⟩
    rcases hpre with ⟨rest, rfl⟩
    have hsplit : (pre ++ [c] ++ rest).filterMap Call.env? =
        pre.filterMap Call.env? ++ env :: rest.filterMap Call.env? := by
      simp [henv]
    rw [hsplit, List.map_append, List.map_cons] at huuids hclock
    refine ⟨?_, ?_⟩
    · rw [← hid]
      intro heq
      exact (List.nodup_append.1 huuids).2.2 env'.uuid (List.mem_map_of_mem henv') env.uuid
        List.mem_cons_self ((String.append_right_inj _).1 heq)
    · rw [← hat]
      exact (List.pairwise_append.1 hclock).2.2 env'.now (List.mem_map_of_mem henv') env.now
        List.mem_cons_self
  exact eachStep_congr_of_eachStep hfresh (fun _ _ h hf => (h.call hf.1 hf.2).1)
    (fun _ _ h hf => (h.call hf.1 hf.2).2) corresponds_start

/-- A run is enqueued, claimed and given a status, and a claim is made. -/
def claimTwice (status : RunStatus) : List Call :=
  [.enqueue ⟨"1", 7⟩ "o" "r", .claimNextQueued, .setStatus "run_1" status, .claimNextQueued]

theorem claimTwice_basic (status : RunStatus) : ∀ c ∈ claimTwice status, c.Basic := by
  simp [claimTwice, Call.Basic]

/-- The run has succeeded, and nothing is queued when the second claim is made. -/
theorem stores_agree_after_success : EachStep step Agree start (claimTwice .succeeded) ∧
    (after step start (claimTwice .succeeded)).mem = [⟨"run_1", "o", "r", .succeeded, 7⟩] := by
  refine ⟨(stores_agree_iff_oldest_reached (claimTwice .succeeded) (claimTwice_basic .succeeded)
    (by decide) (by decide)).2 ?_, by decide +kernel⟩
  refine eachStep_cons.2 ⟨trivial, eachStep_cons.2 ⟨?_, eachStep_cons.2 ⟨trivial,
    eachStep_cons.2 ⟨?_, eachStep_nil⟩⟩⟩⟩
  · intro r hr _ _
    obtain rfl := List.mem_singleton.1 hr
    exact ⟨List.not_mem_nil, [], _, [], rfl, rfl, fun d hd => absurd hd List.not_mem_nil⟩
  · intro r hr hstatus
    obtain rfl := List.mem_singleton.1 hr
    cases hstatus

/-- The run has been put back in the queue: it is the oldest queued run, and the durable store has
nothing to return. -/
theorem stores_disagree_after_requeue :
    ¬ ∀ calls : List Call, (∀ c ∈ calls, c.Basic) →
      ((calls.filterMap Call.env?).map Env.uuid).Nodup →
      ((calls.filterMap Call.env?).map Env.now).Pairwise (· < ·) →
        EachStep step Agree start calls := by
  intro h
  have hagree := h (claimTwice .queued) (claimTwice_basic .queued) (by decide) (by decide)
  have hlast := (hagree ((claimTwice .queued).take 3) .claimNextQueued List.prefix_rfl).1
  revert hlast
  decide +kernel

end Runs
end Aivcs
