import Aivcs.Memory.Retention

/-!
# MemoryContext.Compaction — retention in a memory context

`memory_context::CompactionPolicy::compact`: the entries that are too old go first; of the rest every key
keeps its newest, walked group by group in the order of a hash map, and the retained entries are put back in
chronological order.  Unlike the retention of an index, the cutoff is computed for every entry anew.
-/

namespace Aivcs
namespace MemoryContext

open Aivcs.Lib Aivcs.State

structure MemoryEntry where
  key : String
  content : String
  commitId : String
  createdAt : Timestamp
  deriving DecidableEq

structure CompactionPolicy where
  maxAgeDays : Option UInt64
  maxEntriesPerKey : Option Nat
  deriving DecidableEq

structure CompactionResult where
  retained : List MemoryEntry
  compactedCount : Nat
  deriving DecidableEq

/-! ## Phase 1 -/

/-- The entry is removed for its age. -/
def tooOld (range : DateRange) (now : Timestamp) (policy : CompactionPolicy) (e : MemoryEntry) :
    Option Bool :=
  match policy.maxAgeDays with
  | none => some false
  | some maxDays => (cutoff range now maxDays).map fun cutoff => decide (e.createdAt < cutoff)

/-- What phase 1 keeps and what it removes. -/
structure AgeSplit where
  afterAge : List MemoryEntry
  aged : List MemoryEntry
  deriving DecidableEq

def splitByAge (range : DateRange) (now : Timestamp) (policy : CompactionPolicy) :
    List MemoryEntry → Option AgeSplit
  -- no entry asks for the cutoff
  | [] => some { afterAge := [], aged := [] }
  | e :: entries =>
      match tooOld range now policy e with
      | none => none
      | some old =>
          (splitByAge range now policy entries).map fun split =>
            if old then { split with aged := e :: split.aged }
            else { split with afterAge := e :: split.afterAge }

/-! ## Phase 2 -/

def newestFirst (group : List MemoryEntry) : List MemoryEntry :=
  sortBy (fun e => -e.createdAt) group

/-- One group: its first entries are retained, the others counted. -/
def limitGroup (maxPerKey : Nat) (acc : List MemoryEntry × Nat) (x : String × List MemoryEntry) :
    List MemoryEntry × Nat :=
  let group := newestFirst x.2
  -- `i < max_per_key` for the position `i` in the group
  (acc.1 ++ group.take maxPerKey, acc.2 + (group.drop maxPerKey).length)

/-- The retained entries, as the groups hand them out, and the number of the others. -/
def limitPerKey (it : Iteration String) (policy : CompactionPolicy) (afterAge : List MemoryEntry) :
    List MemoryEntry × Nat :=
  match policy.maxEntriesPerKey with
  | none => (afterAge, 0)
  | some maxPerKey =>
      ((HashMap.groupBy MemoryEntry.key afterAge).entries it).foldl (limitGroup maxPerKey) ([], 0)

/-- What phase 1 removes, and the result. -/
structure Compaction where
  aged : List MemoryEntry
  result : CompactionResult
  deriving DecidableEq

def compaction (range : DateRange) (now : Timestamp) (it : Iteration String) (policy : CompactionPolicy)
    (entries : List MemoryEntry) : Option Compaction :=
  (splitByAge range now policy entries).map fun split =>
    let limited := limitPerKey it policy split.afterAge
    { aged := split.aged
      result :=
        { retained := sortBy MemoryEntry.createdAt limited.1
          compactedCount := entries.length - split.afterAge.length + limited.2 } }

def CompactionPolicy.compact (range : DateRange) (now : Timestamp) (it : Iteration String)
    (policy : CompactionPolicy) (entries : List MemoryEntry) : Option CompactionResult :=
  (compaction range now it policy entries).map Compaction.result

/-! ## The newest of every key -/

/-- The entry is older than the policy allows. -/
def isOld (now : Timestamp) (policy : CompactionPolicy) (e : MemoryEntry) : Bool :=
  isAged now policy.maxAgeDays e.createdAt

/-- The entries of a key that are not too old. -/
def ofKey (now : Timestamp) (policy : CompactionPolicy) (entries : List MemoryEntry) (key : String) :
    List MemoryEntry :=
  (entries.filter fun e => !isOld now policy e).filter fun e => e.key = key

def CompactionResult.retainedOf (result : CompactionResult) (key : String) : List MemoryEntry :=
  result.retained.filter fun e => e.key = key

/-- Every key retains the newest of its entries, as many as the limit allows. -/
structure KeepsNewestPerKey (now : Timestamp) (policy : CompactionPolicy) (entries : List MemoryEntry)
    (result : CompactionResult) : Prop where
  chronological : result.retained.Pairwise fun a b => a.createdAt ≤ b.createdAt
  newest : ∀ key, ∃ dropped,
    (ofKey now policy entries key).Perm (result.retainedOf key ++ dropped) ∧
      ∀ a ∈ result.retainedOf key, ∀ b ∈ dropped, b.createdAt ≤ a.createdAt
  limit : ∀ key, (result.retainedOf key).length =
    match policy.maxEntriesPerKey with
    | none => (ofKey now policy entries key).length
    | some maxPerKey => min maxPerKey (ofKey now policy entries key).length
  counted : result.retained.length + result.compactedCount = entries.length

section Phases

variable {range : DateRange} {now : Timestamp} {it : Iteration String} {policy : CompactionPolicy}
  {entries : List MemoryEntry}

theorem tooOld_eq (hage : AgeFits range now policy.maxAgeDays) (e : MemoryEntry) :
    tooOld range now policy e = some (isOld now policy e) := by
  unfold tooOld isOld
  split
  · next hnone =>
    rw [hnone]
    rfl
  · next maxDays hsome =>
    rw [cutoff_of_fits (hage maxDays hsome), hsome]
    rfl

theorem splitByAge_eq (hage : AgeFits range now policy.maxAgeDays) :
    splitByAge range now policy entries = some
      { afterAge := entries.filter fun e => !isOld now policy e
        aged := entries.filter (isOld now policy) } := by
  induction entries with
  | nil =>
      rfl
  | cons e entries ih =>
      rw [splitByAge, tooOld_eq hage]
      simp only [ih, Option.map_some]
      cases hold : isOld now policy e with
      | true =>
          simp [hold]
      | false =>
          simp [hold]

/-- Walking the groups: what is retained, and that nothing is left uncounted. -/
theorem foldl_limitGroup (maxPerKey : Nat) (groups : List (String × List MemoryEntry))
    (acc : List MemoryEntry × Nat) :
    (groups.foldl (limitGroup maxPerKey) acc).1 =
        acc.1 ++ groups.flatMap (fun x => (newestFirst x.2).take maxPerKey) ∧
      (groups.foldl (limitGroup maxPerKey) acc).1.length + (groups.foldl (limitGroup maxPerKey) acc).2 =
        acc.1.length + acc.2 + (groups.flatMap fun x => x.2).length := by
  induction groups generalizing acc with
  | nil =>
      exact ⟨(List.append_nil _).symm, rfl⟩
  | cons x groups ih =>
      obtain ⟨hretained, hcount⟩ := ih (limitGroup maxPerKey acc x)
      constructor
      · rw [List.foldl_cons, hretained, List.flatMap_cons, ← List.append_assoc]
        rfl
      · have hgroup : ((newestFirst x.2).take maxPerKey).length + ((newestFirst x.2).drop maxPerKey).length =
            x.2.length := by
          rw [← List.length_append, List.take_append_drop]
          exact sortBy_perm.length_eq
        have hstep : (limitGroup maxPerKey acc x).1.length + (limitGroup maxPerKey acc x).2 =
            acc.1.length + acc.2 + x.2.length := by
          simp only [limitGroup, List.length_append]
          omega
        rw [List.foldl_cons, hcount, hstep, List.flatMap_cons, List.length_append]
        omega

theorem limitPerKey_count (afterAge : List MemoryEntry) :
    (limitPerKey it policy afterAge).1.length + (limitPerKey it policy afterAge).2 = afterAge.length := by
  unfold limitPerKey
  split
  · rfl
  · next maxPerKey _ =>
    let groups := (HashMap.groupBy MemoryEntry.key afterAge).entries it
    calc (groups.foldl (limitGroup maxPerKey) ([], 0)).1.length +
          (groups.foldl (limitGroup maxPerKey) ([], 0)).2
        = 0 + 0 + (groups.flatMap fun x => x.2).length := (foldl_limitGroup maxPerKey groups ([], 0)).2
      _ = (groups.flatMap fun x => x.2).length := Nat.zero_add _
      _ = afterAge.length := (HashMap.flatMap_groupBy_perm it).length_eq

/-- The limit on one key: the newest are retained. -/
def newestOf (policy : CompactionPolicy) (group : List MemoryEntry) : List MemoryEntry :=
  match policy.maxEntriesPerKey with
  | none => group
  | some maxPerKey => (newestFirst group).take maxPerKey

theorem filter_limitPerKey (it : Iteration String) (afterAge : List MemoryEntry) (key : String) :
    (limitPerKey it policy afterAge).1.filter (fun e => e.key = key) =
      newestOf policy (afterAge.filter fun e => e.key = key) := by
  unfold limitPerKey newestOf
  split
  · rfl
  · next maxPerKey _ =>
    rw [(foldl_limitGroup maxPerKey _ _).1, List.nil_append]
    refine HashMap.filter_flatMap_groupBy it (f := fun g => (newestFirst g).take maxPerKey) ?_
    intro g e he
    exact mem_sortBy.1 (List.mem_of_mem_take he)

/-- The newest of a group, and what is dropped for them. -/
theorem newestOf_spec (policy : CompactionPolicy) (group : List MemoryEntry) :
    ∃ dropped, group.Perm (newestOf policy group ++ dropped) ∧
      ∀ a ∈ newestOf policy group, ∀ b ∈ dropped, b.createdAt ≤ a.createdAt := by
  unfold newestOf
  split
  · exact ⟨[], by rw [List.append_nil], fun _ _ b hb => absurd hb List.not_mem_nil⟩
  · next maxPerKey _ =>
    have hsplit := List.take_append_drop maxPerKey (newestFirst group)
    have hsorted : (newestFirst group).Pairwise fun a b => -a.createdAt ≤ -b.createdAt := pairwise_sortBy
    rw [← hsplit, List.pairwise_append] at hsorted
    refine ⟨(newestFirst group).drop maxPerKey, ?_, ?_⟩
    · rw [hsplit]
      exact sortBy_perm.symm
    · intro a ha b hb
      exact Int.neg_le_neg_iff.1 (hsorted.2.2 a ha b hb)

theorem length_newestOf (group : List MemoryEntry) :
    (newestOf policy group).length =
      match policy.maxEntriesPerKey with
      | none => group.length
      | some maxPerKey => min maxPerKey group.length := by
  unfold newestOf
  split
  · rfl
  · rw [List.length_take, newestFirst, sortBy_perm.length_eq]

/-- A compaction that has a cutoff retains the newest entries of every key. -/
theorem compact_keepsNewestPerKey (hage : AgeFits range now policy.maxAgeDays) :
    ∃ result, policy.compact range now it entries = some result ∧
      KeepsNewestPerKey now policy entries result := by
  let afterAge := entries.filter fun e => !isOld now policy e
  let limited := limitPerKey it policy afterAge
  let result : CompactionResult :=
    { retained := sortBy MemoryEntry.createdAt limited.1
      compactedCount := entries.length - afterAge.length + limited.2 }
  have hresult : policy.compact range now it entries = some result := by
    rw [CompactionPolicy.compact, compaction, splitByAge_eq hage]
    rfl
  have hretained (key : String) : (result.retainedOf key).Perm
      (newestOf policy (ofKey now policy entries key)) := by
    rw [ofKey, ← filter_limitPerKey it]
    exact sortBy_perm.filter _
  -- the last sort moves the retained entries, it does not choose among them
  refine ⟨result, hresult, pairwise_sortBy, ?_, ?_, ?_⟩
  · intro key
    obtain ⟨dropped, hperm, hnewest⟩ := newestOf_spec policy (ofKey now policy entries key)
    refine ⟨dropped, hperm.trans ((hretained key).symm.append_right dropped), ?_⟩
    exact fun a ha => hnewest a ((hretained key).mem_iff.1 ha)
  · intro key
    rw [(hretained key).length_eq, length_newestOf]
  · have hcount : limited.1.length + limited.2 = afterAge.length := limitPerKey_count afterAge
    have hle : afterAge.length ≤ entries.length := List.length_filter_le _ _
    calc result.retained.length + result.compactedCount
        = limited.1.length + (entries.length - afterAge.length + limited.2) :=
          congrArg (· + result.compactedCount) sortBy_perm.length_eq
      _ = entries.length - afterAge.length + (limited.1.length + limited.2) := Nat.add_left_comm _ _ _
      _ = entries.length - afterAge.length + afterAge.length := by rw [hcount]
      _ = entries.length := Nat.sub_add_cancel hle

end Phases

/-! ## Both retentions -/

/-- A compaction with a cutoff keeps the newest: of an index the newest eligible entries, the rest being
reported once and nothing being left for a second one; of a memory context the newest of every key. -/
theorem compaction_keeps_newest {range : DateRange} {now : Timestamp}
    {indexPolicy : Memory.CompactionPolicy} {policy : CompactionPolicy}
    (hindex : AgeFits range now indexPolicy.maxAgeDays) (hpolicy : AgeFits range now policy.maxAgeDays)
    (walks : Memory.Walks) (index : Memory.MemoryIndex) (it : Iteration String)
    (entries : List MemoryEntry) :
    (∃ result after, Memory.compactIndex range now walks indexPolicy index = some (result, after) ∧
        Memory.KeepsNewest now indexPolicy index after ∧
        result.removedIds.Nodup ∧
        (∀ id, id ∈ result.removedIds ↔ id ∈ index ∧ id ∉ after) ∧
        result.removedCount = result.removedIds.length ∧
        result.remainingCount = after.len ∧
        result.removedCount + result.remainingCount = index.len ∧
        ∀ walks', ∃ result',
          Memory.compactIndex range now walks' indexPolicy after = some (result', after) ∧
            result'.removedIds = []) ∧
      ∃ result, policy.compact range now it entries = some result ∧
        KeepsNewestPerKey now policy entries result :=
  ⟨Memory.compactIndex_keepsNewest hindex, compact_keepsNewestPerKey hpolicy⟩

def monthOldEntries : List MemoryEntry :=
  [{ key := "k", content := "new", commitId := "2", createdAt := 0 },
   { key := "k", content := "old", commitId := "1", createdAt := -31 * nanosPerDay }]

def monthOldIndex : Memory.MemoryIndex :=
  HashMap.ofList
    [("a", { id := "a", summary := "new", createdAt := 0, tokenEstimate := 1, relevance := 0 }),
     ("b", { id := "b", summary := "old", createdAt := -31 * nanosPerDay, tokenEstimate := 1, relevance := 0 })]

theorem compaction_keeps_newest_month :
    (∃ result after,
      Memory.compactIndex Memory.chronoRange 0 ⟨Iteration.sorted String, Iteration.sorted String,
          Iteration.sorted String⟩ ⟨some 30, some 1, none⟩ monthOldIndex = some (result, after) ∧
        Memory.KeepsNewest 0 ⟨some 30, some 1, none⟩ monthOldIndex after) ∧
      ∃ result, CompactionPolicy.compact Memory.chronoRange 0 (Iteration.sorted String) ⟨some 30, some 1⟩
          monthOldEntries = some result ∧
        KeepsNewestPerKey 0 ⟨some 30, some 1⟩ monthOldEntries result := by
  have hfits : CutoffFits Memory.chronoRange 0 30 := ⟨by decide, by decide⟩
  have hindex : AgeFits Memory.chronoRange 0 (Memory.CompactionPolicy.maxAgeDays ⟨some 30, some 1, none⟩) :=
    ageFits_some hfits
  have hpolicy : AgeFits Memory.chronoRange 0 (CompactionPolicy.maxAgeDays ⟨some 30, some 1⟩) :=
    ageFits_some hfits
  obtain ⟨⟨result, after, hcompact, hkeeps, _⟩, hcontext⟩ :=
    compaction_keeps_newest hindex hpolicy
      ⟨Iteration.sorted String, Iteration.sorted String, Iteration.sorted String⟩ monthOldIndex
      (Iteration.sorted String) monthOldEntries
  exact ⟨⟨result, after, hcompact, hkeeps⟩, hcontext⟩

end MemoryContext
end Aivcs
