import Mathlib.Data.Prod.Lex
import Mathlib.Data.String.Basic
import Aivcs.Lib.Hash

/-!
# Diff.SemanticGraph — structural diffs of graph snapshots

`diff/semantic_graph.rs`: the nodes and edges of two snapshots are compared as sets, the prompts node by node over
the keys of both, the entry and the exits as they are.

* `diffGraphSnapshots_faithful` — an empty diff is one of equal snapshots, the head can be told from the base and
  the diff, and the diff in the other direction is the same one swapped.
-/

namespace Aivcs
namespace Diff
namespace SemanticGraph

open Aivcs.Lib

/-- Nodes, edges and prompts are walked in their order. -/
structure GraphSnapshot where
  entry : Option String
  exits : List String
  nodes : Finset String
  edges : Finset (String ×ₗ String)
  prompts : Finmap fun _ : String => String

structure PromptChange where
  before : Option String
  after : Option String
  deriving DecidableEq

structure SemanticGraphDiff where
  promptChanges : Finmap fun _ : String => PromptChange
  nodesAdded : List String
  nodesRemoved : List String
  edgesAdded : List (String ×ₗ String)
  edgesRemoved : List (String ×ₗ String)
  entryChanged : Option (Option String × Option String)
  exitsChanged : Option (List String × List String)

def SemanticGraphDiff.isEmpty (diff : SemanticGraphDiff) : Bool :=
  decide (diff.promptChanges = ∅) && diff.nodesAdded.isEmpty && diff.nodesRemoved.isEmpty && diff.edgesAdded.isEmpty &&
    diff.edgesRemoved.isEmpty && diff.entryChanged.isNone && diff.exitsChanged.isNone

/-- The pass of the loop over the nodes with a prompt. -/
def recordChange (base head : GraphSnapshot) (changes : Finmap fun _ : String => PromptChange) (nodeId : String) :
    Finmap fun _ : String => PromptChange :=
  let before := base.prompts.lookup nodeId
  let after := head.prompts.lookup nodeId
  if before ≠ after then changes.insert nodeId ⟨before, after⟩ else changes

/-- `difference`, in the order of the members. -/
def difference {α : Type} [LinearOrder α] (s s' : Finset α) : List α :=
  (Iteration.sorted α).list (s \ s')

/-- What there was and what there is, if they differ. -/
def changed? {α : Type} [DecidableEq α] (before after : α) : Option (α × α) :=
  if before ≠ after then some (before, after) else none

def diffGraphSnapshots (base head : GraphSnapshot) : SemanticGraphDiff where
  promptChanges :=
    ((Iteration.sorted String).list (base.prompts.keys ∪ head.prompts.keys)).foldl (recordChange base head) ∅
  nodesAdded := difference head.nodes base.nodes
  nodesRemoved := difference base.nodes head.nodes
  edgesAdded := difference head.edges base.edges
  edgesRemoved := difference base.edges head.edges
  entryChanged := changed? base.entry head.entry
  exitsChanged := changed? base.exits head.exits

/-! ## The parts of a diff -/

section Parts

variable {α : Type}

theorem mem_difference [LinearOrder α] {s s' : Finset α} {a : α} : a ∈ difference s s' ↔ a ∈ s ∧ a ∉ s' := by
  rw [difference, (Iteration.sorted α).mem_list, Finset.mem_sdiff]

theorem difference_eq_nil_iff [LinearOrder α] {s s' : Finset α} : difference s s' = [] ↔ s ⊆ s' := by
  rw [List.eq_nil_iff_forall_not_mem]
  simp only [mem_difference, not_and, not_not]
  rfl

/-- A member of the other set is told from what was added and what was removed. -/
theorem mem_iff_of_difference [LinearOrder α] {s s' : Finset α} {a : α} :
    a ∈ s' ↔ a ∈ difference s' s ∨ (a ∈ s ∧ a ∉ difference s s') := by
  rw [mem_difference, mem_difference]
  by_cases ha : a ∈ s
  · simp [ha]
  · simp [ha]

theorem changed?_eq_none_iff [DecidableEq α] {a b : α} : changed? a b = none ↔ a = b := by
  simp [changed?]

/-- The later one is told from the earlier one and the change. -/
theorem changed?_elim [DecidableEq α] (a b : α) : (changed? a b).elim a Prod.snd = b := by
  unfold changed?
  split_ifs with h
  · rfl
  · exact not_not.1 h

theorem changed?_swap [DecidableEq α] (a b : α) : changed? b a = (changed? a b).map Prod.swap := by
  unfold changed?
  by_cases h : a = b
  · simp [h]
  · simp [h, Ne.symm h]

end Parts

section Prompts

variable (base head : GraphSnapshot)

theorem lookup_recordChange (changes : Finmap fun _ : String => PromptChange) (first nodeId : String) :
    (recordChange base head changes first).lookup nodeId =
      if nodeId = first ∧ base.prompts.lookup nodeId ≠ head.prompts.lookup nodeId then
        some ⟨base.prompts.lookup nodeId, head.prompts.lookup nodeId⟩
      else changes.lookup nodeId := by
  unfold recordChange
  by_cases hfirst : nodeId = first
  · subst hfirst
    by_cases hdiffers : base.prompts.lookup nodeId = head.prompts.lookup nodeId
    · simp [hdiffers]
    · simp [hdiffers]
  · by_cases hdiffers : base.prompts.lookup first = head.prompts.lookup first
    · simp [hdiffers, hfirst]
    · simp [hdiffers, hfirst, Finmap.lookup_insert_of_ne _ hfirst]

/-- The pass over a list of nodes records each of them whose prompt differs. -/
theorem lookup_foldl_recordChange (nodeIds : List String) (changes : Finmap fun _ : String => PromptChange)
    (nodeId : String) :
    (nodeIds.foldl (recordChange base head) changes).lookup nodeId =
      if nodeId ∈ nodeIds ∧ base.prompts.lookup nodeId ≠ head.prompts.lookup nodeId then
        some ⟨base.prompts.lookup nodeId, head.prompts.lookup nodeId⟩
      else changes.lookup nodeId := by
  induction nodeIds generalizing changes with
  | nil => simp
  | cons first nodeIds ih =>
      rw [List.foldl_cons, ih, lookup_recordChange]
      by_cases hdiffers : base.prompts.lookup nodeId = head.prompts.lookup nodeId
      · simp [hdiffers]
      · by_cases hmem : nodeId ∈ nodeIds
        · simp [hdiffers, hmem]
        · simp [hdiffers, hmem]

/-- A change is recorded for a node exactly when its prompts differ. -/
theorem lookup_promptChanges (nodeId : String) :
    (diffGraphSnapshots base head).promptChanges.lookup nodeId =
      (changed? (base.prompts.lookup nodeId) (head.prompts.lookup nodeId)).map fun change => ⟨change.1, change.2⟩ := by
  -- A node whose prompts differ has one in the base or in the head, so the loop comes to it.
  have hkeys : base.prompts.lookup nodeId ≠ head.prompts.lookup nodeId →
      nodeId ∈ (Iteration.sorted String).list (base.prompts.keys ∪ head.prompts.keys) := by
    intro hdiffers
    rw [(Iteration.sorted String).mem_list, Finset.mem_union, Finmap.mem_keys, Finmap.mem_keys]
    by_contra hneither
    rw [not_or] at hneither
    exact hdiffers ((Finmap.lookup_eq_none.2 hneither.1).trans (Finmap.lookup_eq_none.2 hneither.2).symm)
  have hlookup := lookup_foldl_recordChange base head
    ((Iteration.sorted String).list (base.prompts.keys ∪ head.prompts.keys)) ∅ nodeId
  rw [diffGraphSnapshots, hlookup, Finmap.lookup_empty, changed?]
  by_cases hdiffers : base.prompts.lookup nodeId = head.prompts.lookup nodeId
  · simp [hdiffers]
  · rw [if_pos ⟨hkeys hdiffers, hdiffers⟩, if_pos hdiffers]
    rfl

theorem promptChanges_eq_empty_iff :
    (diffGraphSnapshots base head).promptChanges = ∅ ↔ base.prompts = head.prompts := by
  have hnone (nodeId : String) : (diffGraphSnapshots base head).promptChanges.lookup nodeId = none ↔
      base.prompts.lookup nodeId = head.prompts.lookup nodeId := by
    rw [lookup_promptChanges, Option.map_eq_none_iff, changed?_eq_none_iff]
  constructor
  · intro h
    refine Finmap.ext_lookup fun nodeId => (hnone nodeId).1 ?_
    rw [h, Finmap.lookup_empty]
  · intro h
    refine Finmap.ext_lookup fun nodeId => ?_
    rw [Finmap.lookup_empty, hnone, h]

/-- The prompts of the head are told from those of the base and the changes. -/
theorem lookup_head_prompts (nodeId : String) :
    head.prompts.lookup nodeId =
      ((diffGraphSnapshots base head).promptChanges.lookup nodeId).elim (base.prompts.lookup nodeId)
        PromptChange.after := by
  have hchange := changed?_elim (base.prompts.lookup nodeId) (head.prompts.lookup nodeId)
  rw [lookup_promptChanges, Option.elim_map]
  exact hchange.symm

end Prompts

/-! ## Faithfulness -/

/-- What was added was removed, and what comes before each change came after it. -/
structure Swapped (diff diff' : SemanticGraphDiff) : Prop where
  promptChanges : ∀ nodeId, diff'.promptChanges.lookup nodeId =
    (diff.promptChanges.lookup nodeId).map fun change => ⟨change.after, change.before⟩
  nodesAdded : diff'.nodesAdded = diff.nodesRemoved
  nodesRemoved : diff'.nodesRemoved = diff.nodesAdded
  edgesAdded : diff'.edgesAdded = diff.edgesRemoved
  edgesRemoved : diff'.edgesRemoved = diff.edgesAdded
  entryChanged : diff'.entryChanged = diff.entryChanged.map Prod.swap
  exitsChanged : diff'.exitsChanged = diff.exitsChanged.map Prod.swap

theorem GraphSnapshot.ext_parts {s s' : GraphSnapshot} (hentry : s.entry = s'.entry) (hexits : s.exits = s'.exits)
    (hnodes : s.nodes = s'.nodes) (hedges : s.edges = s'.edges) (hprompts : s.prompts = s'.prompts) : s = s' := by
  cases s
  cases s'
  cases hentry
  cases hexits
  cases hnodes
  cases hedges
  cases hprompts
  rfl

theorem isEmpty_diffGraphSnapshots (base head : GraphSnapshot) :
    (diffGraphSnapshots base head).isEmpty = true ↔ base = head := by
  -- Nothing added and nothing removed are the two inclusions.
  have hparts : (diffGraphSnapshots base head).isEmpty = true ↔
      base.prompts = head.prompts ∧ head.nodes ⊆ base.nodes ∧ base.nodes ⊆ head.nodes ∧ head.edges ⊆ base.edges ∧
        base.edges ⊆ head.edges ∧ base.entry = head.entry ∧ base.exits = head.exits := by
    simp only [SemanticGraphDiff.isEmpty, Bool.and_eq_true, decide_eq_true_iff, promptChanges_eq_empty_iff,
      List.isEmpty_iff, Option.isNone_iff_eq_none, and_assoc]
    simp only [diffGraphSnapshots, difference_eq_nil_iff, changed?_eq_none_iff]
  rw [hparts]
  constructor
  · rintro ⟨hprompts, hadded, hremoved, hedgesAdded, hedgesRemoved, hentry, hexits⟩
    exact GraphSnapshot.ext_parts hentry hexits (hremoved.antisymm hadded)
      (hedgesRemoved.antisymm hedgesAdded) hprompts
  · rintro rfl
    exact ⟨rfl, Finset.Subset.refl _, Finset.Subset.refl _, Finset.Subset.refl _, Finset.Subset.refl _, rfl, rfl⟩

/-- The base and the diff determine the head. -/
theorem diffGraphSnapshots_inj (base : GraphSnapshot) {head head' : GraphSnapshot}
    (h : diffGraphSnapshots base head = diffGraphSnapshots base head') : head = head' := by
  -- Each part of the head is computed from that part of the base and of the diff.
  refine GraphSnapshot.ext_parts ?_ ?_ ?_ ?_ ?_
  · have hentry : changed? base.entry head.entry = changed? base.entry head'.entry :=
      congrArg SemanticGraphDiff.entryChanged h
    rw [← changed?_elim base.entry head.entry, hentry, changed?_elim]
  · have hexits : changed? base.exits head.exits = changed? base.exits head'.exits :=
      congrArg SemanticGraphDiff.exitsChanged h
    rw [← changed?_elim base.exits head.exits, hexits, changed?_elim]
  · have hadded : difference head.nodes base.nodes = difference head'.nodes base.nodes :=
      congrArg SemanticGraphDiff.nodesAdded h
    have hremoved : difference base.nodes head.nodes = difference base.nodes head'.nodes :=
      congrArg SemanticGraphDiff.nodesRemoved h
    ext node
    rw [mem_iff_of_difference (s := base.nodes), hadded, hremoved, ← mem_iff_of_difference]
  · have hadded : difference head.edges base.edges = difference head'.edges base.edges :=
      congrArg SemanticGraphDiff.edgesAdded h
    have hremoved : difference base.edges head.edges = difference base.edges head'.edges :=
      congrArg SemanticGraphDiff.edgesRemoved h
    ext edge
    rw [mem_iff_of_difference (s := base.edges), hadded, hremoved, ← mem_iff_of_difference]
  · refine Finmap.ext_lookup fun nodeId => ?_
    rw [lookup_head_prompts base head, h, ← lookup_head_prompts]

theorem swapped_diffGraphSnapshots (base head : GraphSnapshot) :
    Swapped (diffGraphSnapshots base head) (diffGraphSnapshots head base) where
  promptChanges nodeId := by
    rw [lookup_promptChanges, lookup_promptChanges, changed?_swap, Option.map_map, Option.map_map]
    rfl
  nodesAdded := rfl
  nodesRemoved := rfl
  edgesAdded := rfl
  edgesRemoved := rfl
  entryChanged := changed?_swap base.entry head.entry
  exitsChanged := changed?_swap base.exits head.exits

/-- A diff loses nothing: it is empty between equal snapshots only, it determines the head, and it can be swapped. -/
theorem diffGraphSnapshots_faithful (base head head' : GraphSnapshot) :
    ((diffGraphSnapshots base head).isEmpty = true ↔ base = head) ∧
      (diffGraphSnapshots base head = diffGraphSnapshots base head' ↔ head = head') ∧
      Swapped (diffGraphSnapshots base head) (diffGraphSnapshots head base) :=
  ⟨isEmpty_diffGraphSnapshots base head, ⟨diffGraphSnapshots_inj base, congrArg (diffGraphSnapshots base)⟩,
    swapped_diffGraphSnapshots base head⟩

end SemanticGraph
end Diff
end Aivcs
