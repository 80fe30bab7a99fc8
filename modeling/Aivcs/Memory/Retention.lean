import Mathlib.Data.Prod.Lex
import Mathlib.Data.String.Basic
import Aivcs.Lib.AgeCutoff
import Aivcs.Lib.Entries
import Aivcs.Lib.Hash
import Aivcs.Lib.SortBy
import Aivcs.State.Types

/-!
# Memory.Retention — a memory index and its compaction

`memory::index`: entries under their ids.  The kind, the tags and the digest of an entry are left out:
only queries read them.

`memory::retention`: entries with too few tokens go first, then those older than the cutoff, and of the
rest the oldest until the limit is met.  Each phase walks the map in an order of its own; where the cutoff
cannot be computed the compaction is `none`.

What is left does not depend on the phases or the walks: the newest of the entries that are eligible
(`compactIndex_keepsNewest`).  The first two phases leave the eligible entries, whichever way they are walked
(`lookup_eligibleIndex`); the third cuts their sorted list in two (`lookup_trimmed`).
-/

namespace Aivcs
namespace Memory

open Aivcs.Lib Aivcs.State

structure MemoryEntry where
  id : String
  summary : String
  createdAt : Timestamp
  tokenEstimate : UInt64
  /-- The bits of the `f64`. -/
  relevance : UInt64
  deriving DecidableEq

/-- The index is a hash map from ids to entries. -/
abbrev MemoryIndex : Type := HashMap String MemoryEntry

def MemoryIndex.len (index : MemoryIndex) : Nat :=
  index.keys.card

structure CompactionPolicy where
  maxAgeDays : Option UInt64
  maxEntries : Option Nat
  minTokenThreshold : Option UInt64
  deriving DecidableEq

structure CompactionResult where
  removedCount : Nat
  remainingCount : Nat
  removedIds : List String
  deriving DecidableEq

/-- The dates of `chrono`, from the year -262143 to 262142. -/
def chronoRange : DateRange :=
  { min := -8334601228800 * 1000000000
    max := 8210266876800 * 1000000000 - 1 }

/-- The orders in which the three phases walk the index. -/
structure Walks where
  tokens : Iteration String
  ages : Iteration String
  trim : Iteration String

/-! ## The three phases -/

/-- The ids of the entries that pass the test. -/
def idsWhere (it : Iteration String) (test : MemoryEntry → Bool) (index : MemoryIndex) : List String :=
  ((index.entries it).filter fun x => test x.2).map Prod.fst

/-- Phase 1: the entries with too few tokens. -/
def belowThreshold (walks : Walks) (policy : CompactionPolicy) (index : MemoryIndex) : List String :=
  match policy.minTokenThreshold with
  | none => []
  | some minTokens => idsWhere walks.tokens (fun e => decide (e.tokenEstimate < minTokens)) index

/-- Phase 2: the entries that are too old. -/
def tooOld (range : DateRange) (now : Timestamp) (walks : Walks) (policy : CompactionPolicy)
    (index : MemoryIndex) : Option (List String) :=
  match policy.maxAgeDays with
  | none => some []
  | some maxAgeDays =>
      (cutoff range now maxAgeDays).map fun cutoff =>
        idsWhere walks.ages (fun e => decide (e.createdAt < cutoff)) index

/-- Oldest first, then by id. -/
def ageKey (x : String × MemoryEntry) : Int ×ₗ String :=
  toLex (x.2.createdAt, x.1)

/-- Phase 3: the oldest entries in excess of the limit. -/
def excess (walks : Walks) (policy : CompactionPolicy) (index : MemoryIndex) : List String :=
  match policy.maxEntries with
  | none => []
  | some maxEntries =>
      if maxEntries < index.len then
        ((sortBy ageKey (index.entries walks.trim)).take (index.len - maxEntries)).map Prod.fst
      else
        []

/-- What each phase removes, and the index that is left. -/
structure Compaction where
  below : List String
  aged : List String
  excess : List String
  index : MemoryIndex

def Compaction.removedIds (c : Compaction) : List String :=
  c.below ++ c.aged ++ c.excess

def Compaction.result (c : Compaction) : CompactionResult :=
  { removedCount := c.removedIds.length
    remainingCount := c.index.len
    removedIds := c.removedIds }

def compact (range : DateRange) (now : Timestamp) (walks : Walks) (policy : CompactionPolicy)
    (index : MemoryIndex) : Option Compaction :=
  let below := belowThreshold walks policy index
  -- every phase walks what the one before it has left
  let index := index.eraseAll below
  (tooOld range now walks policy index).map fun aged =>
    let index := index.eraseAll aged
    let excess := excess walks policy index
    { below := below, aged := aged, excess := excess, index := index.eraseAll excess }

def compactIndex (range : DateRange) (now : Timestamp) (walks : Walks) (policy : CompactionPolicy)
    (index : MemoryIndex) : Option (CompactionResult × MemoryIndex) :=
  (compact range now walks policy index).map fun c => (c.result, c.index)

/-! ## What a phase leaves -/

section Phases

variable {it : Iteration String} {test : MemoryEntry → Bool} {index : MemoryIndex} {id : String}
  {e : MemoryEntry}

theorem mem_idsWhere :
    id ∈ idsWhere it test index ↔ ∃ e, index.lookup id = some e ∧ test e = true := by
  rw [idsWhere, List.mem_map]
  constructor
  · rintro ⟨⟨id, e⟩, hmem, rfl⟩
    obtain ⟨hentry, htest⟩ := List.mem_filter.1 hmem
    exact ⟨e, HashMap.mem_entries.1 hentry, htest⟩
  · rintro ⟨e, hlookup, htest⟩
    exact ⟨(id, e), List.mem_filter.2 ⟨HashMap.mem_entries.2 hlookup, htest⟩, rfl⟩

theorem removable_idsWhere : index.Removable (idsWhere it test index) where
  nodup := HashMap.nodup_entries.sublist (List.filter_sublist.map Prod.fst)
  mem id h := by
    obtain ⟨e, hlookup, _⟩ := mem_idsWhere.1 h
    exact Finmap.mem_iff.2 ⟨e, hlookup⟩

/-- An entry is left if the phase's test does not hold of it. -/
theorem lookup_erase_idsWhere :
    (index.eraseAll (idsWhere it test index)).lookup id = some e ↔
      index.lookup id = some e ∧ test e = false := by
  rw [HashMap.lookup_eraseAll]
  by_cases hmem : id ∈ idsWhere it test index
  · rw [if_pos hmem]
    obtain ⟨e', hlookup, htest⟩ := mem_idsWhere.1 hmem
    constructor
    · intro h
      cases h
    · rintro ⟨he, hfalse⟩
      rw [hlookup] at he
      cases he
      rw [htest] at hfalse
      cases hfalse
  · rw [if_neg hmem]
    constructor
    · intro hlookup
      refine ⟨hlookup, ?_⟩
      cases htest : test e with
      | false =>
          rfl
      | true =>
          exact absurd (mem_idsWhere.2 ⟨e, hlookup, htest⟩) hmem
    · exact fun h => h.1

theorem idsWhere_eq_nil (h : ∀ id e, index.lookup id = some e → test e = false) :
    idsWhere it test index = [] := by
  refine List.eq_nil_iff_forall_not_mem.2 ?_
  intro id hid
  obtain ⟨e, hlookup, htest⟩ := mem_idsWhere.1 hid
  rw [h id e hlookup] at htest
  cases htest

end Phases

/-! ## Eligible entries -/

/-- The entry has fewer tokens than the policy asks for. -/
def fewTokens (policy : CompactionPolicy) (e : MemoryEntry) : Bool :=
  match policy.minTokenThreshold with
  | none => false
  | some minTokens => decide (e.tokenEstimate < minTokens)

/-- The entry is older than the policy allows. -/
def isOld (now : Timestamp) (policy : CompactionPolicy) (e : MemoryEntry) : Bool :=
  isAged now policy.maxAgeDays e.createdAt

def eligible (now : Timestamp) (policy : CompactionPolicy) (e : MemoryEntry) : Bool :=
  !fewTokens policy e && !isOld now policy e

def eligibleIds (now : Timestamp) (policy : CompactionPolicy) (index : MemoryIndex) : Finset String :=
  index.keys.filter fun id => (index.lookup id).any (eligible now policy) = true

/-- What is left are the newest of the eligible entries, by age and id, as many as the limit allows. -/
structure KeepsNewest (now : Timestamp) (policy : CompactionPolicy) (index after : MemoryIndex) :
    Prop where
  eligible : ∀ id e, after.lookup id = some e → index.lookup id = some e ∧ eligible now policy e = true
  newest : ∀ id e id' e', after.lookup id = some e → index.lookup id' = some e' →
    Memory.eligible now policy e' = true → id' ∉ after → ageKey (id', e') < ageKey (id, e)
  count : after.len =
    match policy.maxEntries with
    | none => (eligibleIds now policy index).card
    | some maxEntries => min maxEntries (eligibleIds now policy index).card

section Phases

variable {range : DateRange} {now : Timestamp} {walks : Walks} {policy : CompactionPolicy}
  {index : MemoryIndex} {id : String} {e : MemoryEntry}

theorem belowThreshold_eq :
    belowThreshold walks policy index = idsWhere walks.tokens (fewTokens policy) index := by
  unfold belowThreshold
  split
  · next hnone =>
    refine (idsWhere_eq_nil ?_).symm
    intro id e _
    rw [fewTokens, hnone]
  · next minTokens hsome =>
    have htest : fewTokens policy = fun e => decide (e.tokenEstimate < minTokens) := by
      funext e
      rw [fewTokens, hsome]
    rw [htest]

theorem tooOld_eq (hage : AgeFits range now policy.maxAgeDays) :
    tooOld range now walks policy index = some (idsWhere walks.ages (isOld now policy) index) := by
  unfold tooOld
  split
  · next hnone =>
    refine congrArg some (idsWhere_eq_nil ?_).symm
    intro id e _
    rw [isOld, hnone, isAged]
  · next maxAgeDays hsome =>
    have htest : isOld now policy = fun e => decide (e.createdAt < cutoffTime now maxAgeDays) := by
      funext e
      rw [isOld, hsome, isAged]
    rw [cutoff_of_fits (hage maxAgeDays hsome), htest]
    rfl

/-- The index the first two phases leave. -/
def eligibleIndex (now : Timestamp) (walks : Walks) (policy : CompactionPolicy) (index : MemoryIndex) :
    MemoryIndex :=
  let index := index.eraseAll (belowThreshold walks policy index)
  index.eraseAll (idsWhere walks.ages (isOld now policy) index)

theorem lookup_eligibleIndex :
    (eligibleIndex now walks policy index).lookup id = some e ↔
      index.lookup id = some e ∧ eligible now policy e = true := by
  unfold eligibleIndex eligible
  rw [lookup_erase_idsWhere, belowThreshold_eq, lookup_erase_idsWhere, and_assoc, Bool.and_eq_true,
    Bool.not_eq_true', Bool.not_eq_true']

theorem keys_eligibleIndex :
    (eligibleIndex now walks policy index).keys = eligibleIds now policy index := by
  ext id
  rw [Finmap.mem_keys, Finmap.mem_iff, eligibleIds, Finset.mem_filter, Finmap.mem_keys, Finmap.mem_iff]
  constructor
  · rintro ⟨e, he⟩
    obtain ⟨hlookup, heligible⟩ := lookup_eligibleIndex.1 he
    exact ⟨⟨e, hlookup⟩, by rw [hlookup]; exact heligible⟩
  · rintro ⟨⟨e, hlookup⟩, hany⟩
    rw [hlookup] at hany
    exact ⟨e, lookup_eligibleIndex.2 ⟨hlookup, hany⟩⟩

end Phases

/-! ## The cut -/

section Trim

variable {walks : Walks} {policy : CompactionPolicy} {index : MemoryIndex}

/-- The entries from the oldest to the newest. -/
def byAge (walks : Walks) (index : MemoryIndex) : List (String × MemoryEntry) :=
  sortBy ageKey (index.entries walks.trim)

/-- How many of them are in excess. -/
def surplus (policy : CompactionPolicy) (index : MemoryIndex) : Nat :=
  match policy.maxEntries with
  | none => 0
  | some maxEntries => index.len - maxEntries

theorem length_byAge : (byAge walks index).length = index.len :=
  sortBy_perm.length_eq.trans HashMap.length_entries

theorem mem_byAge {id : String} {e : MemoryEntry} :
    (id, e) ∈ byAge walks index ↔ index.lookup id = some e :=
  mem_sortBy.trans HashMap.mem_entries

theorem nodup_byAge : ((byAge walks index).map Prod.fst).Nodup :=
  (sortBy_perm.map Prod.fst).nodup_iff.2 HashMap.nodup_entries

/-- Ids are distinct, so no two entries are equally old. -/
theorem pairwise_byAge : (byAge walks index).Pairwise fun a b => ageKey a < ageKey b := by
  refine pairwise_lt_sortBy ?_
  refine List.Nodup.of_map (fun k : Int ×ₗ String => (ofLex k).2) ?_
  rw [List.map_map]
  exact HashMap.nodup_entries

theorem excess_eq :
    excess walks policy index = ((byAge walks index).take (surplus policy index)).map Prod.fst := by
  unfold excess surplus
  cases policy.maxEntries with
  | none =>
      rfl
  | some maxEntries =>
      by_cases hlt : maxEntries < index.len
      · simp only [if_pos hlt]
        rfl
      · simp only [if_neg hlt, Nat.sub_eq_zero_of_le (Nat.not_lt.1 hlt)]
        rfl

theorem removable_excess (walks : Walks) (policy : CompactionPolicy) (index : MemoryIndex) :
    index.Removable (excess walks policy index) where
  nodup := by
    rw [excess_eq]
    exact nodup_byAge.sublist ((List.take_sublist _ _).map Prod.fst)
  mem id h := by
    rw [excess_eq] at h
    obtain ⟨⟨id, e⟩, hmem, rfl⟩ := List.mem_map.1 h
    exact Finmap.mem_iff.2 ⟨e, mem_byAge.1 (List.mem_of_mem_take hmem)⟩

theorem length_excess : (excess walks policy index).length = surplus policy index := by
  rw [excess_eq, List.length_map, List.length_take, length_byAge]
  refine Nat.min_eq_left ?_
  unfold surplus
  split
  · exact Nat.zero_le _
  · exact Nat.sub_le _ _

/-- An entry is left if it is in the newer part. -/
theorem lookup_trimmed {id : String} {e : MemoryEntry} :
    (index.eraseAll (excess walks policy index)).lookup id = some e ↔
      (id, e) ∈ (byAge walks index).drop (surplus policy index) := by
  have hsplit := List.take_append_drop (surplus policy index) (byAge walks index)
  have hnodup : ((byAge walks index).map Prod.fst).Nodup := nodup_byAge
  rw [← hsplit, List.map_append, List.nodup_append] at hnodup
  rw [HashMap.lookup_eraseAll, excess_eq]
  constructor
  · intro h
    split at h
    · cases h
    · next hnot =>
      have hmem : (id, e) ∈ byAge walks index := mem_byAge.2 h
      rw [← hsplit] at hmem
      exact (List.mem_append.1 hmem).resolve_left fun htake =>
        hnot (List.mem_map_of_mem (f := Prod.fst) htake)
  · intro hmem
    have hid : id ∈ ((byAge walks index).drop (surplus policy index)).map Prod.fst :=
      List.mem_map_of_mem (f := Prod.fst) hmem
    rw [if_neg fun htake => hnodup.2.2 id htake id hid rfl]
    exact mem_byAge.1 (List.mem_of_mem_drop hmem)

/-- Everything in the older part is older than everything in the newer one. -/
theorem ageKey_lt_of_trimmed {id id' : String} {e e' : MemoryEntry}
    (hkept : (index.eraseAll (excess walks policy index)).lookup id = some e)
    (hlookup : index.lookup id' = some e') (hremoved : id' ∉ index.eraseAll (excess walks policy index)) :
    ageKey (id', e') < ageKey (id, e) := by
  -- an entry that is gone was in the part that is taken
  have hsplit := List.take_append_drop (surplus policy index) (byAge walks index)
  have hsorted : (byAge walks index).Pairwise fun a b => ageKey a < ageKey b := pairwise_byAge
  rw [← hsplit, List.pairwise_append] at hsorted
  have hmem : (id', e') ∈ byAge walks index := mem_byAge.2 hlookup
  rw [← hsplit, List.mem_append] at hmem
  rcases hmem with htake | hdrop
  · exact hsorted.2.2 _ htake _ (lookup_trimmed.1 hkept)
  · exact absurd (Finmap.mem_iff.2 ⟨e', lookup_trimmed.2 hdrop⟩) hremoved

theorem len_trimmed :
    MemoryIndex.len (index.eraseAll (excess walks policy index)) =
      match policy.maxEntries with
      | none => index.len
      | some maxEntries => min maxEntries index.len := by
  have hcard := (removable_excess walks policy index).card
  rw [length_excess, surplus] at hcard
  unfold MemoryIndex.len at *
  cases hmax : policy.maxEntries with
  | none =>
      rw [hmax] at hcard
      exact (Nat.zero_add _).symm.trans hcard
  | some maxEntries =>
      rw [hmax] at hcard
      simp only at hcard ⊢
      omega

end Trim

/-! ## A compaction -/

section Compact

variable {range : DateRange} {now : Timestamp} {walks : Walks} {policy : CompactionPolicy}
  {index : MemoryIndex}

/-- The three phases of a compaction that has a cutoff. -/
theorem compact_eq (hage : AgeFits range now policy.maxAgeDays) :
    compact range now walks policy index = some
      { below := belowThreshold walks policy index
        aged := idsWhere walks.ages (isOld now policy)
          (index.eraseAll (belowThreshold walks policy index))
        excess := excess walks policy (eligibleIndex now walks policy index)
        index := (eligibleIndex now walks policy index).eraseAll
          (excess walks policy (eligibleIndex now walks policy index)) } := by
  simp only [compact, tooOld_eq hage, Option.map_some]
  rfl

/-- What the phases remove together. -/
def removedIds (now : Timestamp) (walks : Walks) (policy : CompactionPolicy) (index : MemoryIndex) :
    List String :=
  belowThreshold walks policy index ++
    idsWhere walks.ages (isOld now policy) (index.eraseAll (belowThreshold walks policy index)) ++
    excess walks policy (eligibleIndex now walks policy index)

theorem eraseAll_removedIds :
    index.eraseAll (removedIds now walks policy index) =
      (eligibleIndex now walks policy index).eraseAll
        (excess walks policy (eligibleIndex now walks policy index)) := by
  rw [removedIds, HashMap.eraseAll_append, HashMap.eraseAll_append]
  rfl

theorem removable_removedIds (now : Timestamp) (walks : Walks) (policy : CompactionPolicy)
    (index : MemoryIndex) : index.Removable (removedIds now walks policy index) := by
  have hbelow : index.Removable (belowThreshold walks policy index) := by
    rw [belowThreshold_eq]
    exact removable_idsWhere
  refine (hbelow.append removable_idsWhere).append ?_
  rw [HashMap.eraseAll_append]
  exact removable_excess walks policy _

theorem keepsNewest_compact (now : Timestamp) (walks : Walks) (policy : CompactionPolicy)
    (index : MemoryIndex) :
    KeepsNewest now policy index (index.eraseAll (removedIds now walks policy index)) := by
  rw [eraseAll_removedIds]
  refine ⟨?_, ?_, ?_⟩
  · intro id e hkept
    exact lookup_eligibleIndex.1 (mem_byAge.1 (List.mem_of_mem_drop (lookup_trimmed.1 hkept)))
  · intro id e id' e' hkept hlookup heligible hremoved
    exact ageKey_lt_of_trimmed hkept (lookup_eligibleIndex.2 ⟨hlookup, heligible⟩) hremoved
  · rw [len_trimmed, MemoryIndex.len, keys_eligibleIndex]

/-- Where all entries are eligible and within the limit, nothing is removed. -/
theorem removedIds_eq_nil (heligible : ∀ id e, index.lookup id = some e → eligible now policy e = true)
    (hlimit : ∀ maxEntries, policy.maxEntries = some maxEntries → index.len ≤ maxEntries) :
    removedIds now walks policy index = [] := by
  have hsplit : ∀ id e, index.lookup id = some e →
      fewTokens policy e = false ∧ isOld now policy e = false := by
    intro id e hlookup
    have h := heligible id e hlookup
    rw [eligible, Bool.and_eq_true, Bool.not_eq_true', Bool.not_eq_true'] at h
    exact h
  have hbelow : belowThreshold walks policy index = [] := by
    rw [belowThreshold_eq]
    exact idsWhere_eq_nil fun id e h => (hsplit id e h).1
  have haged : idsWhere walks.ages (isOld now policy) index = [] :=
    idsWhere_eq_nil fun id e h => (hsplit id e h).2
  have hall : eligibleIndex now walks policy index = index := by
    unfold eligibleIndex
    rw [hbelow]
    exact congrArg (HashMap.eraseAll index) haged
  -- Nothing is erased before the count, so the limit is met by the whole index.
  have hexcess : excess walks policy index = [] := by
    refine List.eq_nil_of_length_eq_zero (length_excess.trans ?_)
    unfold surplus
    split
    · rfl
    · next maxEntries hsome =>
      exact Nat.sub_eq_zero_of_le (hlimit maxEntries hsome)
  rw [removedIds, hall, hexcess, hbelow, List.nil_append, List.append_nil]
  exact haged

/-- A compaction that has a cutoff keeps the newest of the eligible entries, tells what it has removed, and
leaves nothing to remove for another one at the same time. -/
theorem compactIndex_keepsNewest (hage : AgeFits range now policy.maxAgeDays) :
    ∃ result after, compactIndex range now walks policy index = some (result, after) ∧
      KeepsNewest now policy index after ∧
      result.removedIds.Nodup ∧
      (∀ id, id ∈ result.removedIds ↔ id ∈ index ∧ id ∉ after) ∧
      result.removedCount = result.removedIds.length ∧
      result.remainingCount = after.len ∧
      result.removedCount + result.remainingCount = index.len ∧
      ∀ walks', ∃ result', compactIndex range now walks' policy after = some (result', after) ∧
        result'.removedIds = [] := by
  have hcompact (walks : Walks) (index : MemoryIndex) :
      compactIndex range now walks policy index = some
        ({ removedCount := (removedIds now walks policy index).length
           remainingCount := MemoryIndex.len (index.eraseAll (removedIds now walks policy index))
           removedIds := removedIds now walks policy index },
          index.eraseAll (removedIds now walks policy index)) := by
    rw [compactIndex, compact_eq hage, eraseAll_removedIds]
    rfl
  have hkeeps := keepsNewest_compact now walks policy index
  have hremovable := removable_removedIds now walks policy index
  refine ⟨_, _, hcompact walks index, hkeeps, hremovable.nodup, ?_, rfl, rfl, hremovable.card, ?_⟩
  · intro id
    rw [HashMap.mem_eraseAll]
    constructor
    · exact fun h => ⟨hremovable.mem id h, fun hkept => hkept.2 h⟩
    · rintro ⟨hmem, hnot⟩
      by_contra hid
      exact hnot ⟨hmem, hid⟩
  · -- what is left is eligible and within the limit
    intro walks'
    have hnil : removedIds now walks' policy (index.eraseAll (removedIds now walks policy index)) = [] := by
      refine removedIds_eq_nil (fun id e h => (hkeeps.eligible id e h).2) ?_
      intro maxEntries hsome
      have hcount := hkeeps.count
      rw [hsome] at hcount
      exact hcount.trans_le (Nat.min_le_left _ _)
    refine ⟨⟨0, MemoryIndex.len (index.eraseAll (removedIds now walks policy index)), []⟩,
      (hcompact walks' _).trans ?_, rfl⟩
    rw [hnil]
    rfl

end Compact

end Memory
end Aivcs
