import Aivcs.MemoryContext.Compaction
import Aivcs.TraceArtifact.Retention

/-!
# TraceArtifact.LongerRetention — what a longer retention deletes

Three places compute the same cutoff: the compaction of a memory index, that of a memory context, and the
pruning of run artifacts.  Each keeps more under a longer retention exactly when both cutoffs exist and the
longer one is not read as negative in front of an entry (`longer_retention_iff`).
-/

namespace Aivcs
namespace TraceArtifact

open Aivcs.Lib Aivcs.State

/-! ## Memory index -/

section Index

variable (range : DateRange) (now : Timestamp) (walks : Memory.Walks) (policy : Memory.CompactionPolicy)
  (index : Memory.MemoryIndex)

/-- The ids that `compact_index` removes for their age. -/
def indexAged (days : UInt64) : Option (List String) :=
  (Memory.compact range now walks { policy with maxAgeDays := some days } index).map
    Memory.Compaction.aged

/-- The entries that the age phase sees: those with enough tokens. -/
def IndexEntry (e : Memory.MemoryEntry) : Prop :=
  ∃ id, index.lookup id = some e ∧ Memory.fewTokens policy e = false

variable {range now walks policy index} {days days' : UInt64}

theorem keepsMore_indexAged_iff (hle : days ≤ days') :
    KeepsMore (indexAged range now walks policy index days) (indexAged range now walks policy index days') ↔
      LongerIsSafe range Memory.MemoryEntry.createdAt now days days' (IndexEntry policy index) := by
  let remaining : Memory.MemoryIndex := index.eraseAll (Memory.belowThreshold walks policy index)
  let aged (c : Int) : List String :=
    Memory.idsWhere walks.ages (fun e => decide (e.createdAt < c)) remaining
  have hremaining {id : String} {e : Memory.MemoryEntry} :
      remaining.lookup id = some e ↔ index.lookup id = some e ∧ Memory.fewTokens policy e = false := by
    change (index.eraseAll _).lookup id = some e ↔ _
    rw [Memory.belowThreshold_eq]
    exact Memory.lookup_erase_idsWhere
  have haged (days : UInt64) : indexAged range now walks policy index days = (cutoff range now days).map aged := by
    unfold indexAged Memory.compact Memory.tooOld
    rw [Option.map_map, Option.map_map]
    rfl
  rw [haged, haged]
  refine keepsMore_iff hle ?_
  intro c c'
  constructor
  · rintro h e ⟨id, hid⟩ hold
    have hmem : id ∈ aged c' := Memory.mem_idsWhere.2 ⟨e, hremaining.2 hid, decide_eq_true hold⟩
    obtain ⟨e', hlookup, hold'⟩ := Memory.mem_idsWhere.1 (h id hmem)
    rw [hremaining.2 hid] at hlookup
    cases hlookup
    exact of_decide_eq_true hold'
  · intro h id hid
    obtain ⟨e, hlookup, hold⟩ := Memory.mem_idsWhere.1 hid
    exact Memory.mem_idsWhere.2
      ⟨e, hlookup, decide_eq_true (h e ⟨id, hremaining.1 hlookup⟩ (of_decide_eq_true hold))⟩

end Index

/-! ## Memory context -/

/-- Removing from a list what is older than a cutoff. -/
theorem aged_filter_subset {α : Type} {createdAt : α → Int} {l : List α} (c c' : Int) :
    (∀ x ∈ l.filter (fun x => createdAt x < c'), x ∈ l.filter fun x => createdAt x < c) ↔
      ∀ x, x ∈ l → createdAt x < c' → createdAt x < c := by
  constructor
  · intro h x hx hold
    exact of_decide_eq_true (List.mem_filter.1 (h x (List.mem_filter.2 ⟨hx, decide_eq_true hold⟩))).2
  · intro h x hx
    obtain ⟨hmem, hold⟩ := List.mem_filter.1 hx
    exact List.mem_filter.2 ⟨hmem, decide_eq_true (h x hmem (of_decide_eq_true hold))⟩

section Context

variable (range : DateRange) (now : Timestamp) (it : Iteration String)
  (policy : MemoryContext.CompactionPolicy) (entries : List MemoryContext.MemoryEntry)

/-- The entries that `compact` removes for their age. -/
def contextAged (days : UInt64) : Option (List MemoryContext.MemoryEntry) :=
  (MemoryContext.compaction range now it { policy with maxAgeDays := some days } entries).map
    MemoryContext.Compaction.aged

variable {range now it policy entries} {days days' : UInt64}

theorem contextAged_eq (hne : entries ≠ []) :
    contextAged range now it policy entries days =
      (cutoff range now days).map fun c => entries.filter fun e => e.createdAt < c := by
  unfold contextAged MemoryContext.compaction
  rw [Option.map_map]
  by_cases hfits : CutoffFits range now days
  · have hage : AgeFits range now (some days) := ageFits_some hfits
    rw [MemoryContext.splitByAge_eq hage, cutoff_of_fits hfits]
    rfl
  · cases entries with
    | nil =>
        exact absurd rfl hne
    | cons e entries =>
        have hold : MemoryContext.tooOld range now { policy with maxAgeDays := some days } e = none := by
          simp only [MemoryContext.tooOld, cutoff_of_not_fits hfits, Option.map_none]
        simp only [MemoryContext.splitByAge, hold, cutoff_of_not_fits hfits, Option.map_none]

theorem keepsMore_contextAged_iff (hle : days ≤ days') :
    KeepsMore (contextAged range now it policy entries days) (contextAged range now it policy entries days') ↔
      entries = [] ∨
        LongerIsSafe range MemoryContext.MemoryEntry.createdAt now days days' (· ∈ entries) := by
  by_cases hnil : entries = []
  · subst hnil
    exact ⟨fun _ => Or.inl rfl, fun _ => ⟨[], [], rfl, rfl, fun _ h => h⟩⟩
  · rw [contextAged_eq hnil, contextAged_eq hnil, keepsMore_iff hle aged_filter_subset, or_iff_right hnil]

end Context

/-! ## Run artifacts -/

section Prune

variable (range : DateRange) (now : Timestamp) (parse : Bytes → Option Timestamp)
  (policy : RetentionPolicy) (listing : Listing)

def pruneFor (remove : String → Bool) (days : UInt64) : Option Pruning :=
  RetentionPolicy.prune range now parse remove { policy with maxAgeDays := some days } listing

/-- However the deletions come out, both retentions have an answer, and where both complete the longer one
has removed for age what the shorter one has. -/
def PruneKeepsMore (days days' : UInt64) : Prop :=
  ∀ remove, ∃ p p', pruneFor range now parse policy listing remove days = some p ∧
    pruneFor range now parse policy listing remove days' = some p' ∧
      (p.result.isOk = true → p'.result.isOk = true → ∀ run ∈ p'.aged, run ∈ p.aged)

/-- The directory is there and could be read, with these runs. -/
def Collects (runs : List RunEntry) : Prop :=
  ∃ dirs, listing = .entries dirs ∧ collect parse dirs = .ok runs

variable {range now parse policy listing} {remove : String → Bool} {runs : List RunEntry}
  {days days' : UInt64}

theorem pruneFor_of_not_collects (h : ∀ runs, ¬ Collects parse listing runs) :
    ∃ result, ∀ remove days, pruneFor range now parse policy listing remove days =
      some { aged := [], excess := [], result := result } := by
  cases listing with
  | notFound =>
      exact ⟨.ok 0, fun _ _ => rfl⟩
  | failed =>
      exact ⟨.error .io, fun _ _ => rfl⟩
  | entries dirs =>
      cases hcollect : collect parse dirs with
      | error err =>
          refine ⟨.error err, ?_⟩
          intro remove days
          simp only [pruneFor, RetentionPolicy.prune, hcollect]
      | ok runs =>
          exact absurd ⟨dirs, rfl, hcollect⟩ (h runs)

theorem pruneFor_of_collects (h : Collects parse listing runs) (remove : String → Bool) (days : UInt64) :
    pruneFor range now parse policy listing remove days =
      pruneRuns range now remove { policy with maxAgeDays := some days } runs := by
  obtain ⟨dirs, rfl, hcollect⟩ := h
  simp only [pruneFor, RetentionPolicy.prune, hcollect]

theorem pruneRuns_eq : pruneRuns range now remove { policy with maxAgeDays := some days } runs =
    (cutoff range now days).map fun c => finish remove policy (sweepAged remove c (newestFirst runs)) := by
  unfold pruneRuns sweepByAge
  rw [Option.map_map]
  rfl

/-- The runs before a cutoff. -/
def agedRuns (runs : List RunEntry) (c : Int) : List RunEntry :=
  (newestFirst runs).filter fun run => run.createdAt < c

/-- A completed pruning has removed the runs before the cutoff. -/
theorem aged_pruneRuns {p : Pruning}
    (h : pruneRuns range now remove { policy with maxAgeDays := some days } runs = some p)
    (hok : p.result.isOk = true) : (cutoff range now days).map (agedRuns runs) = some p.aged := by
  rw [pruneRuns_eq, Option.map_eq_some_iff] at h
  obtain ⟨c, hc, rfl⟩ := h
  rw [hc, Option.map_some, aged_finish]
  exact congrArg some (removed_sweep (failed_of_isOk_finish hok)).symm

theorem keepsMore_agedRuns_iff (hle : days ≤ days') :
    KeepsMore ((cutoff range now days).map (agedRuns runs)) ((cutoff range now days').map (agedRuns runs)) ↔
      LongerIsSafe range RunEntry.createdAt now days days' (· ∈ runs) := by
  refine keepsMore_iff hle ?_
  intro c c'
  refine (aged_filter_subset c c').trans ?_
  exact forall_congr' fun run => imp_congr_left mem_sortBy

theorem pruneKeepsMore_of_collects (hle : days ≤ days') (h : Collects parse listing runs) :
    PruneKeepsMore range now parse policy listing days days' ↔
      LongerIsSafe range RunEntry.createdAt now days days' (· ∈ runs) := by
  rw [← keepsMore_agedRuns_iff hle]
  constructor
  · intro hkeeps
    -- the deletions that succeed show what the ages alone decide
    obtain ⟨p, p', hp, hp', hsub⟩ := hkeeps fun _ => true
    rw [pruneFor_of_collects h] at hp hp'
    have hok {days : UInt64} {p : Pruning}
        (hp : pruneRuns range now (fun _ => true) { policy with maxAgeDays := some days } runs = some p) :
        p.result.isOk = true := by
      rw [pruneRuns_eq, Option.map_eq_some_iff] at hp
      obtain ⟨c, _, rfl⟩ := hp
      exact isOk_finish (fun _ => rfl) (failed_sweep fun _ => rfl)
    exact ⟨p.aged, p'.aged, aged_pruneRuns hp (hok hp), aged_pruneRuns hp' (hok hp'),
      hsub (hok hp) (hok hp')⟩
  · rintro ⟨l, l', hl, hl', hsub⟩ remove
    obtain ⟨c, hc, rfl⟩ := Option.map_eq_some_iff.1 hl
    obtain ⟨c', hc', rfl⟩ := Option.map_eq_some_iff.1 hl'
    have hp {days : UInt64} {c : Int} (hc : cutoff range now days = some c) :
        pruneFor range now parse policy listing remove days =
          some (finish remove policy (sweepAged remove c (newestFirst runs))) := by
      rw [pruneFor_of_collects h, pruneRuns_eq, hc, Option.map_some]
    refine ⟨_, _, hp hc, hp hc', ?_⟩
    intro hok hok' run hrun
    rw [aged_finish, sweepAged, removed_sweep (failed_of_isOk_finish hok)]
    rw [aged_finish, sweepAged, removed_sweep (failed_of_isOk_finish hok')] at hrun
    exact hsub run hrun

theorem pruneKeepsMore_iff (hle : days ≤ days') :
    PruneKeepsMore range now parse policy listing days days' ↔
      ∀ runs, Collects parse listing runs →
        LongerIsSafe range RunEntry.createdAt now days days' (· ∈ runs) := by
  constructor
  · exact fun h runs hruns => (pruneKeepsMore_of_collects hle hruns).1 h
  · intro h
    by_cases hruns : ∃ runs, Collects parse listing runs
    · obtain ⟨runs, hruns⟩ := hruns
      exact (pruneKeepsMore_of_collects hle hruns).2 (h runs hruns)
    · intro remove
      obtain ⟨result, hresult⟩ := pruneFor_of_not_collects (not_exists.1 hruns)
      exact ⟨_, _, hresult remove days, hresult remove days', fun _ _ _ hrun => hrun⟩

end Prune

/-! ## The three of them -/

/-- A longer retention has an answer and removes no more, exactly when both cutoffs exist and no entry lies
between them; a memory context without entries and a directory that cannot be read need no cutoff. -/
theorem longer_retention_iff {days days' : UInt64} (hle : days ≤ days') (range : DateRange)
    (now : Timestamp) :
    (∀ walks policy index,
      KeepsMore (indexAged range now walks policy index days)
          (indexAged range now walks policy index days') ↔
        LongerIsSafe range Memory.MemoryEntry.createdAt now days days' (IndexEntry policy index)) ∧
    (∀ it policy entries,
      KeepsMore (contextAged range now it policy entries days)
          (contextAged range now it policy entries days') ↔
        entries = [] ∨
          LongerIsSafe range MemoryContext.MemoryEntry.createdAt now days days' (· ∈ entries)) ∧
    ∀ parse policy listing,
      PruneKeepsMore range now parse policy listing days days' ↔
        ∀ runs, Collects parse listing runs →
          LongerIsSafe range RunEntry.createdAt now days days' (· ∈ runs) :=
  ⟨fun _ _ _ => keepsMore_indexAged_iff hle, fun _ _ _ => keepsMore_contextAged_iff hle,
    fun _ _ _ => pruneKeepsMore_iff hle⟩

/-- Entries of this moment. -/
def freshMemory : Memory.MemoryEntry :=
  { id := "a", summary := "s", createdAt := 0, tokenEstimate := 1, relevance := 0 }

def freshEntry : MemoryContext.MemoryEntry :=
  { key := "k", content := "c", commitId := "1", createdAt := 0 }

def freshIndex : Memory.MemoryIndex :=
  HashMap.ofList [("a", freshMemory)]

def freshListing : Listing :=
  .entries [some { path := "run-1", trace := .content [] }]

def sortedWalks : Memory.Walks :=
  { tokens := Iteration.sorted String
    ages := Iteration.sorted String
    trim := Iteration.sorted String }

def noLimits : Memory.CompactionPolicy :=
  { maxAgeDays := none, maxEntries := none, minTokenThreshold := none }

/-- A month and two months. -/
theorem longer_retention_iff_months :
    KeepsMore (indexAged Memory.chronoRange 0 sortedWalks noLimits freshIndex 30)
        (indexAged Memory.chronoRange 0 sortedWalks noLimits freshIndex 60) ∧
      KeepsMore (contextAged Memory.chronoRange 0 (Iteration.sorted String) ⟨none, none⟩ [freshEntry] 30)
        (contextAged Memory.chronoRange 0 (Iteration.sorted String) ⟨none, none⟩ [freshEntry] 60) ∧
      PruneKeepsMore Memory.chronoRange 0 (fun _ => some 0) ⟨none, none⟩ freshListing 30 60 := by
  have hsafe {α : Type} (createdAt : α → Int) (xs : α → Prop) :
      LongerIsSafe Memory.chronoRange createdAt 0 30 60 xs :=
    ⟨⟨by decide, by decide⟩, ⟨by decide, by decide⟩, fun h => absurd h.2.1 (by decide)⟩
  have hall := longer_retention_iff (by decide : (30 : UInt64) ≤ 60) Memory.chronoRange 0
  exact ⟨(hall.1 _ _ _).2 (hsafe _ _), (hall.2.1 _ _ _).2 (Or.inr (hsafe _ _)),
    (hall.2.2 _ _ _).2 fun _ _ => hsafe _ _⟩

/-- The greatest day count is read as -1: what is fresh is removed, though a month keeps it. -/
theorem greatest_retention_removes_more :
    ¬ KeepsMore (indexAged Memory.chronoRange 0 sortedWalks noLimits freshIndex 30)
        (indexAged Memory.chronoRange 0 sortedWalks noLimits freshIndex 0xFFFFFFFFFFFFFFFF) ∧
      ¬ KeepsMore (contextAged Memory.chronoRange 0 (Iteration.sorted String) ⟨none, none⟩ [freshEntry] 30)
        (contextAged Memory.chronoRange 0 (Iteration.sorted String) ⟨none, none⟩ [freshEntry]
          0xFFFFFFFFFFFFFFFF) ∧
      ¬ PruneKeepsMore Memory.chronoRange 0 (fun _ => some 0) ⟨none, none⟩ freshListing 30
        0xFFFFFFFFFFFFFFFF := by
  have hunsafe {α : Type} {createdAt : α → Int} {xs : α → Prop} (x : α) (hx : xs x)
      (hfresh : createdAt x = 0) :
      ¬ LongerIsSafe Memory.chronoRange createdAt 0 30 0xFFFFFFFFFFFFFFFF xs := by
    intro h
    refine h.noneBetween ⟨by decide, by decide, x, hx, ?_, ?_⟩
    · rw [hfresh]
      decide
    · rw [hfresh]
      decide
  have hle : (30 : UInt64) ≤ 0xFFFFFFFFFFFFFFFF := by decide
  refine ⟨?_, ?_, ?_⟩
  · intro h
    have hnodup : ([("a", freshMemory)].map Prod.fst).Nodup := List.nodup_singleton _
    exact hunsafe freshMemory ⟨"a", HashMap.lookup_ofList hnodup List.mem_cons_self, rfl⟩ rfl
      ((keepsMore_indexAged_iff hle).1 h)
  · intro h
    rcases (keepsMore_contextAged_iff hle).1 h with hnil | hsafe
    · cases hnil
    · exact hunsafe freshEntry List.mem_cons_self rfl hsafe
  · intro h
    have hruns : Collects (fun _ => some 0) freshListing [{ createdAt := 0, path := "run-1" }] :=
      ⟨_, rfl, rfl⟩
    have hsafe := (pruneKeepsMore_iff hle).1 h _ hruns
    exact hunsafe (⟨0, "run-1"⟩ : RunEntry) List.mem_cons_self rfl hsafe

end TraceArtifact
end Aivcs
