import Aivcs.Diff.LcsDiff
import Aivcs.Diff.ToolCalls

/-!
# Diff.Accounting — every tool call is accounted for

Both diff modules align calls by a longest common subsequence of their names.  In `diff/tool_calls.rs` the
calls that are left over are paired by name, so of every tool only the surplus of one run is reported as
removed or added, and the number of reorders does not depend on which alignment was found.
-/

namespace Aivcs
namespace Diff

open Aivcs.Lib
open Aivcs.Domain (Value)
open Aivcs.State (RunEvent)

/-- In both modules the alignment is a longest common subsequence of the names, and the same one. -/
theorem lcsAlignment_longest :
    (∀ a b : List ToolCalls.ToolCall, Lcs.Longest (a.map ToolCalls.ToolCall.toolName)
      (b.map ToolCalls.ToolCall.toolName) (ToolCalls.lcsAlignment a b)) ∧
    (∀ a b : List LcsDiff.ToolCallEntry, Lcs.Longest (a.map LcsDiff.ToolCallEntry.toolName)
      (b.map LcsDiff.ToolCallEntry.toolName) (LcsDiff.lcsAlignment a b)) ∧
    ∀ (a b : List ToolCalls.ToolCall) (a' b' : List LcsDiff.ToolCallEntry),
      a.map ToolCalls.ToolCall.toolName = a'.map LcsDiff.ToolCallEntry.toolName →
      b.map ToolCalls.ToolCall.toolName = b'.map LcsDiff.ToolCallEntry.toolName →
      ToolCalls.lcsAlignment a b = LcsDiff.lcsAlignment a' b' := by
  refine ⟨fun a b => Lcs.longest_alignment _ _, fun a b => Lcs.longest_alignment _ _, ?_⟩
  intro a b a' b' ha hb
  rw [ToolCalls.lcsAlignment, LcsDiff.lcsAlignment, ha, hb]

/-- Two swapped calls. -/
theorem lcsAlignment_longest_swapped :
    ToolCalls.lcsAlignment [⟨1, "search", .null⟩, ⟨2, "fetch", .null⟩]
        [⟨1, "fetch", .null⟩, ⟨2, "search", .null⟩] =
      LcsDiff.lcsAlignment [⟨1, "search", .null⟩, ⟨2, "fetch", .null⟩]
        [⟨1, "fetch", .null⟩, ⟨2, "search", .null⟩] :=
  lcsAlignment_longest.2.2 _ _ _ _ rfl rfl

namespace ToolCalls

/-! ## Counting changes -/

inductive Kind where
  | added
  | removed
  | reordered

/-- The tool of a change of the kind. -/
def ToolCallChange.tool? : Kind → ToolCallChange → Option String
  | .added, .added call => some call.toolName
  | .removed, .removed call => some call.toolName
  | .reordered, .reordered call _ _ => some call.toolName
  | _, _ => none

/-- The changes of the kind for the tool. -/
def countOf (kind : Kind) (t : String) (changes : List ToolCallChange) : Nat :=
  changes.countP fun c => c.tool? kind = some t

/-- The calls of a tool in a run. -/
def callCount (events : List (RunEvent Value)) (t : String) : Nat :=
  ((extractToolCalls events).map ToolCall.toolName).count t

/-- The tools called in a run. -/
def tools (events : List (RunEvent Value)) : Finset String :=
  ((extractToolCalls events).map ToolCall.toolName).toFinset

section Count

variable {kind : Kind} {t : String}

@[simp] theorem countOf_nil : countOf kind t [] = 0 := rfl

@[simp] theorem countOf_append (changes changes' : List ToolCallChange) :
    countOf kind t (changes ++ changes') = countOf kind t changes + countOf kind t changes' :=
  List.countP_append

theorem countOf_cons (c : ToolCallChange) (changes : List ToolCallChange) :
    countOf kind t (c :: changes) = countOf kind t changes + if c.tool? kind = some t then 1 else 0 := by
  rw [countOf, List.countP_cons]
  simp [countOf]

/-- A change of parameters counts for nothing. -/
@[simp] theorem countOf_paramChanges (callA callB : ToolCall) :
    countOf kind t (paramChanges callA callB) = 0 := by
  unfold paramChanges
  dsimp only
  split
  · rfl
  · cases kind <;> rfl

@[simp] theorem countOf_alignedChanges (callsA callsB : List ToolCall) (alignment : List (Nat × Nat)) :
    countOf kind t (alignedChanges callsA callsB alignment) = 0 := by
  unfold alignedChanges
  induction alignment with
  | nil =>
      rfl
  | cons pair alignment ih =>
      rw [List.flatMap_cons, countOf_append, ih]
      split
      · exact countOf_paramChanges _ _
      · rfl

end Count

/-! ## Matching the rest -/

section Reconcile

variable {callsB : List ToolCall} {alignedB matchedB : List Nat}

/-- The calls of a tool that can still be matched. -/
def free (callsB : List ToolCall) (alignedB matchedB : List Nat) (t : String) : Finset Nat :=
  (Lcs.positions (callsB.map ToolCall.toolName) t).filter fun i => i ∉ alignedB ∧ i ∉ matchedB

theorem mem_free {t : String} {i : Nat} : i ∈ free callsB alignedB matchedB t ↔
    (callsB.map ToolCall.toolName)[i]? = some t ∧ i ∉ alignedB ∧ i ∉ matchedB := by
  rw [free, Finset.mem_filter, Lcs.mem_positions]

theorem free_cons (t : String) (i : Nat) :
    free callsB alignedB (i :: matchedB) t = (free callsB alignedB matchedB t).erase i := by
  ext j
  rw [Finset.mem_erase, mem_free, mem_free, List.mem_cons]
  tauto

theorem reorderTarget_some {t : String} {callB : ToolCall} {iB : Nat}
    (h : reorderTarget callsB alignedB matchedB t = some (callB, iB)) :
    callB.toolName = t ∧ iB ∈ free callsB alignedB matchedB t := by
  have hmem := List.mk_mem_zipIdx_iff_getElem?.1 (List.mem_of_find?_eq_some h)
  have hfound := List.find?_some h
  simp only [decide_eq_true_eq] at hfound
  refine ⟨hfound.2.2, mem_free.2 ⟨?_, hfound.1, hfound.2.1⟩⟩
  rw [List.getElem?_map, hmem, Option.map_some, hfound.2.2]

theorem reorderTarget_none {t : String} (h : reorderTarget callsB alignedB matchedB t = none) :
    free callsB alignedB matchedB t = ∅ := by
  rw [Finset.eq_empty_iff_forall_notMem]
  intro i hi
  obtain ⟨hname, haligned, hmatched⟩ := mem_free.1 hi
  rw [List.getElem?_map, Option.map_eq_some_iff] at hname
  obtain ⟨call, hcall, hname⟩ := hname
  have hno := List.find?_eq_none.1 h (call, i) (List.mk_mem_zipIdx_iff_getElem?.2 hcall)
  simp only [decide_eq_true_eq] at hno
  exact hno ⟨haligned, hmatched, hname⟩

/-- The loop matches as many calls of a tool as it can and reports the others as removed. -/
theorem reconcile_spec (callsB : List ToolCall) (alignedB : List Nat) (rest : List (ToolCall × Nat))
    (matchedB : List Nat) (t : String) :
    let waiting := rest.countP fun x => x.1.toolName = t
    let open_ := (free callsB alignedB matchedB t).card
    let reconciled := reconcile callsB alignedB rest matchedB
    countOf .reordered t reconciled.1 = min waiting open_ ∧
      countOf .removed t reconciled.1 = waiting - open_ ∧
      countOf .added t reconciled.1 = 0 ∧
      (free callsB alignedB reconciled.2 t).card = open_ - waiting := by
  -- On the calls that wait, whatever has been matched so far.
  induction rest generalizing matchedB with
  | nil =>
      simp [reconcile]
  | cons x rest ih =>
      obtain ⟨callA, iA⟩ := x
      rw [reconcile, List.countP_cons]
      cases htarget : reorderTarget callsB alignedB matchedB callA.toolName with
      | some target =>
          obtain ⟨callB, iB⟩ := target
          obtain ⟨hname, hfree⟩ := reorderTarget_some htarget
          obtain ⟨hreordered, hremoved, hadded, hopen⟩ := ih (iB :: matchedB)
          rw [free_cons] at hreordered hremoved hopen
          simp only [countOf_append, countOf_paramChanges, countOf_cons, ToolCallChange.tool?, hname,
            hreordered, hremoved, hadded, hopen, Option.some.injEq, decide_eq_true_eq, reduceCtorEq,
            if_false]
          by_cases ht : callA.toolName = t
          · -- One call fewer waits, and one fewer is free.
            subst ht
            have hpos : 0 < (free callsB alignedB matchedB callA.toolName).card :=
              Finset.card_pos.2 ⟨iB, hfree⟩
            rw [Finset.card_erase_of_mem hfree]
            simp only [if_true]
            refine ⟨?_, ?_, trivial, ?_⟩ <;> omega
          · -- The match is a call of another tool.
            have hother : iB ∉ free callsB alignedB matchedB t := by
              intro hmem
              have hsame := (mem_free.1 hmem).1.symm.trans (mem_free.1 hfree).1
              exact ht (Option.some.inj hsame).symm
            rw [Finset.erase_eq_of_notMem hother]
            simp only [ht, if_false]
            refine ⟨?_, ?_, trivial, ?_⟩ <;> omega
      | none =>
          have hempty := reorderTarget_none htarget
          obtain ⟨hreordered, hremoved, hadded, hopen⟩ := ih matchedB
          simp only [countOf_cons, ToolCallChange.tool?, hreordered, hremoved, hadded, hopen,
            Option.some.injEq, decide_eq_true_eq, reduceCtorEq, if_false]
          by_cases ht : callA.toolName = t
          · -- No call of the tool is free, so this one was removed.
            subst ht
            rw [hempty, Finset.card_empty]
            simp only [if_true]
            refine ⟨?_, ?_, trivial, ?_⟩ <;> omega
          · simp only [ht, if_false]
            refine ⟨?_, ?_, trivial, ?_⟩ <;> omega

end Reconcile

/-! ## A whole diff -/

section Diff

/-- The unaligned calls, one tool at a time. -/
theorem countP_unaligned (aligned : List Nat) (calls : List ToolCall) (t : String) :
    (unaligned aligned calls).countP (fun x => x.1.toolName = t) =
      ((Lcs.positions (calls.map ToolCall.toolName) t).filter (· ∉ aligned)).card := by
  rw [← Lcs.countP_zipIdx, unaligned, List.countP_filter]
  exact List.countP_congr fun x _ => by simp

theorem countP_unaligned_unmatched (aligned matched : List Nat) (calls : List ToolCall) (t : String) :
    ((unaligned aligned calls).filter fun x => x.2 ∉ matched).countP (fun x => x.1.toolName = t) =
      (free calls aligned matched t).card := by
  rw [free, ← Lcs.countP_zipIdx, unaligned, List.filter_filter, List.countP_filter]
  refine List.countP_congr fun x _ => ?_
  simp only [Bool.and_eq_true, decide_eq_true_eq]
  tauto

theorem countOf_map_added (kind : Kind) (t : String) (calls : List (ToolCall × Nat)) :
    countOf kind t (calls.map fun x => .added x.1) =
      match kind with
      | .added => calls.countP fun x => x.1.toolName = t
      | _ => 0 := by
  rw [countOf, List.countP_map]
  cases kind with
  | added =>
      exact List.countP_congr fun x _ => by simp [ToolCallChange.tool?]
  | removed | reordered =>
      exact List.countP_eq_zero.2 fun x _ => by simp [ToolCallChange.tool?]

theorem free_nil (calls : List ToolCall) (aligned : List Nat) (t : String) :
    free calls aligned [] t =
      (Lcs.positions (calls.map ToolCall.toolName) t).filter (· ∉ aligned) :=
  Finset.filter_congr fun i _ => by simp

/-- What is made of the calls that some alignment leaves over. -/
theorem reconcile_counts {callsA callsB : List ToolCall} {pairs : List (Nat × Nat)}
    (h : Lcs.Common (callsA.map ToolCall.toolName) (callsB.map ToolCall.toolName) pairs) (t : String) :
    let countA := (callsA.map ToolCall.toolName).count t
    let countB := (callsB.map ToolCall.toolName).count t
    let reconciled := reconcile callsB (pairs.map Prod.snd) (unaligned (pairs.map Prod.fst) callsA) []
    countOf .removed t reconciled.1 = countA - countB ∧
      countOf .added t reconciled.1 = 0 ∧
      (free callsB (pairs.map Prod.snd) reconciled.2 t).card = countB - countA ∧
      countOf .reordered t reconciled.1 + Lcs.used (callsA.map ToolCall.toolName) pairs t =
        min countA countB := by
  intro countA countB reconciled
  have hleft := Lcs.card_unused_left h t
  have hright := Lcs.card_unused_right h t
  obtain ⟨hreordered, hremoved, hadded, hopen⟩ :=
    reconcile_spec callsB (pairs.map Prod.snd) (unaligned (pairs.map Prod.fst) callsA) [] t
  rw [countP_unaligned, free_nil] at hreordered hremoved hopen
  refine ⟨?_, hadded, ?_, ?_⟩
  · rw [hremoved]
    omega
  · rw [hopen]
    omega
  · rw [hreordered]
    omega

theorem common_lcsAlignment (callsA callsB : List ToolCall) :
    Lcs.Common (callsA.map ToolCall.toolName) (callsB.map ToolCall.toolName)
      (lcsAlignment callsA callsB) :=
  Lcs.common_alignment _ _

/-- The changes of a diff, one tool at a time; `used` is how many calls of the tool are aligned. -/
theorem countOf_diffToolCalls (a b : List (RunEvent Value)) (t : String) :
    let changes := (diffToolCalls a b).changes
    let used := Lcs.used ((extractToolCalls a).map ToolCall.toolName)
      (lcsAlignment (extractToolCalls a) (extractToolCalls b)) t
    countOf .removed t changes = callCount a t - callCount b t ∧
      countOf .added t changes = callCount b t - callCount a t ∧
      countOf .reordered t changes + used = min (callCount a t) (callCount b t) := by
  intro changes used
  obtain ⟨hremoved, hadded, hopen, hreordered⟩ :=
    reconcile_counts (common_lcsAlignment (extractToolCalls a) (extractToolCalls b)) t
  simp only [changes, used, diffToolCalls, countOf_append, countOf_alignedChanges, countOf_map_added,
    countP_unaligned_unmatched, Nat.zero_add, Nat.add_zero]
  refine ⟨hremoved, ?_, hreordered⟩
  rw [hadded, Nat.zero_add]
  exact hopen

/-- The reorders of a diff. -/
def reorderCount (diff : ToolCallDiff) : Nat :=
  diff.changes.countP fun c => (c.tool? .reordered).isSome

/-- The reorders are what the two runs share, less what is aligned. -/
theorem reorderCount_add (a b : List (RunEvent Value)) :
    reorderCount (diffToolCalls a b) +
        (lcsAlignment (extractToolCalls a) (extractToolCalls b)).length =
      ∑ t ∈ tools a ∪ tools b, min (callCount a t) (callCount b t) := by
  -- Only tools that are called are reordered.
  have hkeys : ∀ c ∈ (diffToolCalls a b).changes, ∀ t, c.tool? .reordered = some t →
      t ∈ tools a ∪ tools b := by
    intro c hc t ht
    have hpos : 0 < countOf .reordered t (diffToolCalls a b).changes :=
      List.countP_pos_iff.2 ⟨c, hc, by simp [ht]⟩
    have hshared := (countOf_diffToolCalls a b t).2.2
    have hcalled : 0 < callCount a t := by
      have hle : min (callCount a t) (callCount b t) ≤ callCount a t := Nat.min_le_left _ _
      omega
    exact Finset.mem_union_left _ (List.mem_toFinset.2 (List.count_pos_iff.1 hcalled))
  have hreorders := Lcs.sum_countP (ToolCallChange.tool? .reordered) (diffToolCalls a b).changes
    (tools a ∪ tools b) hkeys
  have hused := Lcs.sum_used (common_lcsAlignment (extractToolCalls a) (extractToolCalls b))
    (tools a ∪ tools b) fun t ht => Finset.mem_union_left _ (List.mem_toFinset.2 ht)
  rw [reorderCount, ← hreorders, ← hused, ← Finset.sum_add_distrib]
  exact Finset.sum_congr rfl fun t _ => (countOf_diffToolCalls a b t).2.2

/-- Of every tool only the surplus of one run is reported as removed or added, the reorders are what the
runs share less a longest common subsequence, and exchanging the runs exchanges removed and added. -/
theorem diffToolCalls_accounts (a b : List (RunEvent Value)) :
    (∀ t, countOf .removed t (diffToolCalls a b).changes = callCount a t - callCount b t ∧
      countOf .added t (diffToolCalls a b).changes = callCount b t - callCount a t) ∧
    (∃ longest, Lcs.Longest ((extractToolCalls a).map ToolCall.toolName)
        ((extractToolCalls b).map ToolCall.toolName) longest ∧
      reorderCount (diffToolCalls a b) + longest.length =
        ∑ t ∈ tools a ∪ tools b, min (callCount a t) (callCount b t)) ∧
    reorderCount (diffToolCalls a b) = reorderCount (diffToolCalls b a) ∧
    ∀ t, countOf .removed t (diffToolCalls a b).changes = countOf .added t (diffToolCalls b a).changes ∧
      countOf .added t (diffToolCalls a b).changes =
        countOf .removed t (diffToolCalls b a).changes := by
  refine ⟨?_, ⟨_, Lcs.longest_alignment _ _, reorderCount_add a b⟩, ?_, ?_⟩
  · intro t
    obtain ⟨hremoved, hadded, -⟩ := countOf_diffToolCalls a b t
    exact ⟨hremoved, hadded⟩
  · -- Both alignments are longest, so they leave equally many calls to reorder.
    have hab := reorderCount_add a b
    have hba := reorderCount_add b a
    have hlen : (lcsAlignment (extractToolCalls a) (extractToolCalls b)).length =
        (lcsAlignment (extractToolCalls b) (extractToolCalls a)).length :=
      Lcs.length_alignment_comm _ _
    have hshared : ∑ t ∈ tools a ∪ tools b, min (callCount a t) (callCount b t) =
        ∑ t ∈ tools b ∪ tools a, min (callCount b t) (callCount a t) := by
      rw [Finset.union_comm]
      exact Finset.sum_congr rfl fun t _ => Nat.min_comm _ _
    omega
  · intro t
    obtain ⟨hremoved, hadded, -⟩ := countOf_diffToolCalls a b t
    obtain ⟨hremoved', hadded', -⟩ := countOf_diffToolCalls b a t
    exact ⟨hremoved.trans hadded'.symm, hadded.trans hremoved'.symm⟩

end Diff

end ToolCalls

end Diff
end Aivcs
