import Aivcs.Diff.LcsDiff
import Aivcs.Diff.ToolCalls

/-!
# Diff.Emptiness — when a diff is empty

`json_diff` and `param_delta` read `null` where one side has nothing.  So they report no difference exactly
when the values are the same without their nulls: those of object members, and for `json_diff`, which goes
into arrays, those at the end of arrays.
-/

namespace Aivcs
namespace Diff

open Aivcs.Lib
open Aivcs.Domain (Number Value)
open Aivcs.State (RunEvent)

/-- `a == b` of JSON values. -/
abbrev Equal (a b : Doc Number) : Prop :=
  Doc.Same Number.Equal a b

/-- Equal but for nulls that read like nothing. -/
def EqualUpToNulls (arrays : Bool) (a b : Doc Number) : Prop :=
  Equal (Doc.dropNulls arrays a) (Doc.dropNulls arrays b)

instance (arrays : Bool) (a b : Doc Number) : Decidable (EqualUpToNulls arrays a b) :=
  inferInstanceAs (Decidable (Equal _ _))

section Values

variable {arrays : Bool} {a b : Doc Number}

theorem equalUpToNulls_null : EqualUpToNulls arrays .null .null := by
  rw [EqualUpToNulls, Doc.dropNulls_null]
  trivial

/-- Values that are not both objects and not both arrays keep all their nulls that matter. -/
theorem equalUpToNulls_leaf (hobj : ∀ objA objB, a = .obj objA → b = .obj objB → False)
    (harr : ∀ arrA arrB, a = .arr arrA → b = .arr arrB → False) :
    EqualUpToNulls arrays a b ↔ Equal a b := by
  unfold EqualUpToNulls
  cases a <;> cases b <;> cases arrays <;> simp_all [Doc.dropNulls, Doc.Same]

/-- `json_diff` finds nothing exactly in values that are equal up to nulls. -/
theorem jsonDiff_eq_nil_iff (order : LcsDiff.KeyOrder) (pre : String) (ha : a.UniqueKeys)
    (hb : b.UniqueKeys) : LcsDiff.jsonDiff order pre a b = [] ↔ EqualUpToNulls true a b := by
  fun_induction LcsDiff.jsonDiff order pre a b with
  | case1 order pre a b hsame =>
      exact iff_of_true rfl (hsame.dropNulls ha hb)
  | case2 order pre objA objB hne ih =>
      -- The keys that are walked are those at which one object has a member; elsewhere both read null.
      have hread := Doc.forall_memberAt (EqualUpToNulls true) equalUpToNulls_null objA objB
      have hobj : EqualUpToNulls true (.obj objA) (.obj objB) ↔ _ :=
        Doc.same_dropNulls_obj (Doc.uniqueKeys_obj.1 ha).1 (Doc.uniqueKeys_obj.1 hb).1
      refine List.flatMap_eq_nil_iff.trans (Iff.trans ?_ (hread.trans hobj.symm))
      simp only [(order []).mem_list, List.mem_toFinset]
      refine forall₂_congr fun key _ => ?_
      exact ih key (Doc.uniqueKeys_memberAt ha key) (Doc.uniqueKeys_memberAt hb key)
  | case3 order pre arrA arrB hne ih =>
      have hread := Doc.forall_elemAt (EqualUpToNulls true) equalUpToNulls_null arrA arrB
      have harr : EqualUpToNulls true (.arr arrA) (.arr arrB) ↔ _ := Doc.same_dropNulls_arr
      refine List.flatMap_eq_nil_iff.trans (Iff.trans ?_ (hread.trans harr.symm))
      simp only [List.mem_range]
      refine forall₂_congr fun i _ => ?_
      exact ih i (Doc.uniqueKeys_elemAt ha i) (Doc.uniqueKeys_elemAt hb i)
  | case4 order pre a b hne hobj harr =>
      rw [equalUpToNulls_leaf hobj harr]
      exact iff_of_false (List.cons_ne_nil _ _) hne

/-- `param_delta` does not go into arrays. -/
theorem equalUpToNulls_arr {arrA arrB : List (Doc Number)} :
    EqualUpToNulls false (.arr arrA) (.arr arrB) ↔ Equal (.arr arrA) (.arr arrB) := by
  rw [EqualUpToNulls, Doc.dropNulls, Doc.dropNulls, if_neg Bool.false_ne_true,
    if_neg Bool.false_ne_true]

theorem paramDeltaRecursive_eq_nil_iff (pre : String) (ha : a.UniqueKeys) (hb : b.UniqueKeys) :
    ToolCalls.paramDeltaRecursive pre a b = [] ↔ EqualUpToNulls false a b := by
  fun_induction ToolCalls.paramDeltaRecursive pre a b with
  | case1 pre a b hsame =>
      exact iff_of_true rfl (hsame.dropNulls ha hb)
  | case2 pre objA objB hne ih =>
      have hread := Doc.forall_memberAt (EqualUpToNulls false) equalUpToNulls_null objA objB
      have hobj : EqualUpToNulls false (.obj objA) (.obj objB) ↔ _ :=
        Doc.same_dropNulls_obj (Doc.uniqueKeys_obj.1 ha).1 (Doc.uniqueKeys_obj.1 hb).1
      refine List.flatMap_eq_nil_iff.trans (Iff.trans ?_ (hread.trans hobj.symm))
      simp only [(Iteration.sorted String).mem_list, List.mem_toFinset]
      refine forall₂_congr fun key _ => ?_
      exact ih key (Doc.uniqueKeys_memberAt ha key) (Doc.uniqueKeys_memberAt hb key)
  | case3 pre a b hne hobj =>
      refine iff_of_false (List.cons_ne_nil _ _) fun h => hne ?_
      -- Two arrays have kept their nulls, leaves had none to lose.
      by_cases harr : ∀ arrA arrB, a = .arr arrA → b = .arr arrB → False
      · exact (equalUpToNulls_leaf hobj harr).1 h
      · push Not at harr
        obtain ⟨arrA, arrB, rfl, rfl, -⟩ := harr
        exact equalUpToNulls_arr.1 h

end Values

/-! ## Sequences -/

open LcsDiff

/-- The same name and equal payloads. -/
def SameCall (callA callB : ToolCallEntry) : Prop :=
  callA.toolName = callB.toolName ∧ Equal callA.payload callB.payload

def SameCallUpToNulls (callA callB : ToolCallEntry) : Prop :=
  callA.toolName = callB.toolName ∧ EqualUpToNulls true callA.payload callB.payload

/-- Every call comes after the one before it. -/
def InOrder (calls : List ToolCallEntry) : Prop :=
  calls.IsChain fun prev call => prev.seq < call.seq

section Sequences

variable {order : Nat × Nat → KeyOrder} {callsA callsB : List ToolCallEntry}

theorem pairChanges_eq_nil_iff (order : KeyOrder) (reordered : Bool) (callA callB : ToolCallEntry) :
    pairChanges order reordered callA callB = [] ↔
      reordered = false ∧ jsonDiff order "" callA.payload callB.payload = [] := by
  unfold pairChanges
  cases reordered with
  | true =>
      simp
  | false =>
      by_cases hdiff : jsonDiff order "" callA.payload callB.payload = []
      · simp [hdiff]
      · simp [hdiff, List.isEmpty_iff]

/-- The loop reports nothing if no pair gives a change after the one before it. -/
theorem alignedChanges_some_eq_nil_iff (prev : Nat × Nat) (pairs : List (Nat × Nat)) :
    alignedChanges order callsA callsB (some prev) pairs = [] ↔
      (prev :: pairs).IsChain fun p q => alignedCall order callsA callsB (some p) q = [] := by
  induction pairs generalizing prev with
  | nil =>
      exact iff_of_true rfl (List.IsChain.singleton _)
  | cons pair pairs ih =>
      rw [alignedChanges, List.append_eq_nil_iff, List.isChain_cons_cons, ih]

section Payloads

variable (hkeysA : ∀ call ∈ callsA, call.payload.UniqueKeys)
  (hkeysB : ∀ call ∈ callsB, call.payload.UniqueKeys) (hlen : callsA.length = callsB.length)

include hkeysA hkeysB hlen

theorem alignedCall_none_eq_nil_iff {i : Nat} (hi : i < callsA.length) :
    alignedCall order callsA callsB none (i, i) = [] ↔
      EqualUpToNulls true callsA[i].payload callsB[i].payload := by
  have hi' : i < callsB.length := hlen ▸ hi
  rw [alignedCall, List.getElem?_eq_getElem hi, List.getElem?_eq_getElem hi']
  refine (pairChanges_eq_nil_iff _ _ _ _).trans ((and_iff_right rfl).trans ?_)
  exact jsonDiff_eq_nil_iff _ _ (hkeysA _ (List.getElem_mem hi)) (hkeysB _ (List.getElem_mem hi'))

/-- A call after the one before it. -/
theorem alignedCall_succ_eq_nil_iff {i : Nat} (hi : i + 1 < callsA.length) :
    alignedCall order callsA callsB (some (i, i)) (i + 1, i + 1) = [] ↔
      (callsA[i].seq < callsA[i + 1].seq ∧ callsB[i].seq < callsB[i + 1].seq) ∧
        EqualUpToNulls true callsA[i + 1].payload callsB[i + 1].payload := by
  have hi' : i + 1 < callsB.length := hlen ▸ hi
  have hprev : i < callsA.length := Nat.lt_of_succ_lt hi
  have hprev' : i < callsB.length := Nat.lt_of_succ_lt hi'
  rw [alignedCall, List.getElem?_eq_getElem hi, List.getElem?_eq_getElem hi']
  refine (pairChanges_eq_nil_iff _ _ _ _).trans (and_congr ?_ ?_)
  · simp [isReordered, List.getElem?_eq_getElem hprev, List.getElem?_eq_getElem hprev']
  · exact jsonDiff_eq_nil_iff _ _ (hkeysA _ (List.getElem_mem hi)) (hkeysB _ (List.getElem_mem hi'))

/-- The loop over calls that are aligned position by position. -/
theorem alignedChanges_diagonal_eq_nil_iff {n : Nat} (hn : callsA.length = n) :
    alignedChanges order callsA callsB none ((List.range n).map fun i => (i, i)) = [] ↔
      List.Forall₂ (fun callA callB => EqualUpToNulls true callA.payload callB.payload) callsA callsB ∧
        InOrder callsA ∧ InOrder callsB := by
  rw [List.forall₂_iff_get, and_iff_right hlen, InOrder, InOrder, List.isChain_iff_getElem,
    List.isChain_iff_getElem]
  cases n with
  | zero =>
      refine iff_of_true rfl ⟨?_, ?_, ?_⟩ <;> intro i hi <;> omega
  | succ n =>
      have hcons : (List.range (n + 1)).map (fun i => (i, i)) =
          (0, 0) :: ((List.range n).map Nat.succ).map fun i => (i, i) := by
        rw [List.range_succ_eq_map, List.map_cons]
      -- Every pair after the first is looked at with the one before it.
      have hchain : ((List.range (n + 1)).map fun i => (i, i)).IsChain
            (fun p q => alignedCall order callsA callsB (some p) q = []) ↔
          ∀ i < n, alignedCall order callsA callsB (some (i, i)) (i + 1, i + 1) = [] := by
        rw [List.isChain_map]
        exact List.isChain_range_succ _ n
      rw [hcons, alignedChanges, List.append_eq_nil_iff, alignedChanges_some_eq_nil_iff, ← hcons, hchain,
        alignedCall_none_eq_nil_iff hkeysA hkeysB hlen (hn ▸ Nat.succ_pos n)]
      constructor
      · rintro ⟨hfirst, hnext⟩
        have hstep (i : Nat) (hi : i + 1 < callsA.length) :=
          (alignedCall_succ_eq_nil_iff hkeysA hkeysB hlen hi).1 (hnext i (by omega))
        refine ⟨fun i hi hi' => ?_, fun i hi => ((hstep i (hn ▸ hi)).1).1,
          fun i hi => ((hstep i (hlen ▸ hi)).1).2⟩
        cases i with
        | zero =>
            exact hfirst
        | succ i =>
            exact (hstep i (hn ▸ hi)).2
      · rintro ⟨hpayload, horderA, horderB⟩
        refine ⟨hpayload 0 _ _, fun i hi => ?_⟩
        have hi' : i + 1 < callsA.length := by omega
        exact (alignedCall_succ_eq_nil_iff hkeysA hkeysB hlen hi').2
          ⟨⟨horderA i (hn ▸ hi'), horderB i (hlen ▸ hi')⟩, hpayload (i + 1) _ _⟩

end Payloads

theorem unaligned_eq_nil_iff (aligned : List Nat) (calls : List ToolCallEntry) :
    unaligned aligned calls = [] ↔ ∀ i < (calls.map ToolCallEntry.toolName).length, i ∈ aligned := by
  rw [unaligned, List.map_eq_nil_iff, List.filter_eq_nil_iff, List.length_map]
  constructor
  · intro h i hi
    have hmem : (calls[i], i) ∈ calls.zipIdx :=
      List.mk_mem_zipIdx_iff_getElem?.2 (List.getElem?_eq_getElem hi)
    simpa using h _ hmem
  · rintro h ⟨call, i⟩ hmem
    have hcall := List.mk_mem_zipIdx_iff_getElem?.1 hmem
    simpa using h i (List.getElem?_eq_some_iff.1 hcall).1

/-- No call is left over exactly if the names are the same, and then calls are aligned by position. -/
theorem unaligned_lcsAlignment (callsA callsB : List ToolCallEntry) :
    unaligned ((lcsAlignment callsA callsB).map Prod.fst) callsA = [] ∧
        unaligned ((lcsAlignment callsA callsB).map Prod.snd) callsB = [] ↔
      callsA.map ToolCallEntry.toolName = callsB.map ToolCallEntry.toolName := by
  rw [unaligned_eq_nil_iff, unaligned_eq_nil_iff]
  constructor
  · rintro ⟨hallA, hallB⟩
    exact ((Lcs.common_alignment _ _).eq_diagonal hallA hallB).1
  · intro hnames
    rw [lcsAlignment, ← hnames, Lcs.alignment_self]
    simp

end Sequences

/-! ## Runs -/

theorem forall₂_and {α β : Type} {R S : α → β → Prop} {xs : List α} {ys : List β} :
    List.Forall₂ (fun x y => R x y ∧ S x y) xs ys ↔ List.Forall₂ R xs ys ∧ List.Forall₂ S xs ys := by
  constructor
  · intro h
    exact ⟨h.imp fun _ _ => And.left, h.imp fun _ _ => And.right⟩
  · rintro ⟨hR, hS⟩
    induction hR with
    | nil =>
        exact .nil
    | cons hxy _ ih =>
        cases hS with
        | cons hxy' hS =>
            exact .cons ⟨hxy, hxy'⟩ (ih hS)

section Runs

theorem uniqueKeys_extractToolCalls (events : List (RunEvent Value)) :
    ∀ call ∈ extractToolCalls events, call.payload.UniqueKeys := by
  intro call hcall
  obtain ⟨event, -, rfl⟩ := List.mem_map.1 hcall
  exact event.payload.unique

variable (order : Nat × Nat → KeyOrder) (runIdA : String) (eventsA : List (RunEvent Value))
  (runIdB : String) (eventsB : List (RunEvent Value))

/-- Two runs are reported as identical if their calls have the same names and the same payloads up to nulls,
and follow each other in both. -/
theorem identical_iff : (diffToolCalls order runIdA eventsA runIdB eventsB).identical = true ↔
    List.Forall₂ SameCallUpToNulls (extractToolCalls eventsA) (extractToolCalls eventsB) ∧
      InOrder (extractToolCalls eventsA) ∧ InOrder (extractToolCalls eventsB) := by
  have hkeysA := uniqueKeys_extractToolCalls eventsA
  have hkeysB := uniqueKeys_extractToolCalls eventsB
  have hnames : (extractToolCalls eventsA).map ToolCallEntry.toolName =
      (extractToolCalls eventsB).map ToolCallEntry.toolName ↔
        List.Forall₂ (fun callA callB => callA.toolName = callB.toolName) (extractToolCalls eventsA)
          (extractToolCalls eventsB) := by
    rw [← List.forall₂_eq_eq_eq, List.forall₂_map_left_iff, List.forall₂_map_right_iff]
  have hboth : List.Forall₂ SameCallUpToNulls (extractToolCalls eventsA) (extractToolCalls eventsB) ↔ _ :=
    forall₂_and
  rw [diffToolCalls]
  dsimp only
  rw [List.isEmpty_iff, List.append_eq_nil_iff, List.append_eq_nil_iff, List.map_eq_nil_iff,
    List.map_eq_nil_iff, and_right_comm, unaligned_lcsAlignment, hboth, ← hnames, and_assoc]
  -- With the same names the alignment is the diagonal.
  refine and_congr_right fun heq => ?_
  have hlen : (extractToolCalls eventsA).length = (extractToolCalls eventsB).length := by
    simpa using congrArg List.length heq
  rw [lcsAlignment, ← heq, Lcs.alignment_self, List.length_map]
  exact alignedChanges_diagonal_eq_nil_iff hkeysA hkeysB hlen rfl

end Runs

/-- A diff is empty only for equal values exactly where no difference is a null against nothing; and two runs
are identical only with equal calls exactly where this is so or the calls of a run are out of order. -/
theorem diff_empty_only_for_equal_iff (order : KeyOrder) (x y : Value)
    (orders : Nat × Nat → KeyOrder) (runIdA : String) (eventsA : List (RunEvent Value))
    (runIdB : String) (eventsB : List (RunEvent Value)) :
    ((jsonDiff order "" x.doc y.doc = [] ↔ Equal x.doc y.doc) ↔
      (EqualUpToNulls true x.doc y.doc → Equal x.doc y.doc)) ∧
    ((ToolCalls.paramDelta x.doc y.doc = [] ↔ Equal x.doc y.doc) ↔
      (EqualUpToNulls false x.doc y.doc → Equal x.doc y.doc)) ∧
    (((diffToolCalls orders runIdA eventsA runIdB eventsB).identical = true →
        List.Forall₂ SameCall (extractToolCalls eventsA) (extractToolCalls eventsB)) ↔
      (List.Forall₂ SameCallUpToNulls (extractToolCalls eventsA) (extractToolCalls eventsB) →
        InOrder (extractToolCalls eventsA) → InOrder (extractToolCalls eventsB) →
        List.Forall₂ SameCall (extractToolCalls eventsA) (extractToolCalls eventsB))) := by
  refine ⟨?_, ?_, ?_⟩
  · rw [jsonDiff_eq_nil_iff order "" x.unique y.unique]
    exact ⟨Iff.mp, fun h => ⟨h, fun heq => heq.dropNulls x.unique y.unique⟩⟩
  · rw [ToolCalls.paramDelta, paramDeltaRecursive_eq_nil_iff "" x.unique y.unique]
    exact ⟨Iff.mp, fun h => ⟨h, fun heq => heq.dropNulls x.unique y.unique⟩⟩
  · rw [identical_iff]
    exact ⟨fun h hsame hA hB => h ⟨hsame, hA, hB⟩, fun h hident => h hident.1 hident.2.1 hident.2.2⟩

/-! ### A member that is null -/

def plainPayload : Value where
  doc := .obj [("tool_name", .str "search")]
  unique := ⟨by decide, trivial, trivial⟩

/-- The same with a member that is null. -/
def nullPayload : Value where
  doc := .obj [("tool_name", .str "search"), ("limit", .null)]
  unique := ⟨by decide, trivial, trivial, trivial⟩

theorem equalUpToNulls_nullPayload (arrays : Bool) :
    EqualUpToNulls arrays plainPayload.doc nullPayload.doc := by
  cases arrays <;> decide

/-- A run of one call. -/
def callRun (payload : Value) : List (RunEvent Value) :=
  [{ seq := 1, kind := "tool_called", payload := payload, timestamp := 0 }]

/-- A limit of null and no limit: the payloads differ, no diff says so, and the runs are identical. -/
theorem diff_empty_misses_null :
    jsonDiff (fun _ => Iteration.sorted String) "" plainPayload.doc nullPayload.doc = [] ∧
      ToolCalls.paramDelta plainPayload.doc nullPayload.doc = [] ∧
      (diffToolCalls (fun _ _ => Iteration.sorted String) "a" (callRun plainPayload) "b"
        (callRun nullPayload)).identical = true ∧
      ¬ Equal plainPayload.doc nullPayload.doc := by
  refine ⟨?_, ?_, ?_, by decide⟩
  · exact (jsonDiff_eq_nil_iff _ "" plainPayload.unique nullPayload.unique).2
      (equalUpToNulls_nullPayload true)
  · exact (paramDeltaRecursive_eq_nil_iff "" plainPayload.unique nullPayload.unique).2
      (equalUpToNulls_nullPayload false)
  · rw [identical_iff]
    exact ⟨.cons ⟨rfl, equalUpToNulls_nullPayload true⟩ .nil, .singleton _, .singleton _⟩

end Diff
end Aivcs
