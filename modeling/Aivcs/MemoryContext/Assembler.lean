import Aivcs.Memory.Context

/-!
# MemoryContext.Assembler — segments packed into a token budget

`memory_context`: the assembler sorts segments by priority and packs them with the loop `assembleContext`
has too, and the same unchecked sum.  `packing_iff` puts the two side by side.
-/

namespace Aivcs
namespace MemoryContext

open Aivcs.Lib Aivcs.Memory

structure ContextSegment where
  label : String
  content : String
  priority : UInt32
  estimatedTokens : UInt64
  deriving DecidableEq

structure AssembledContext where
  segments : List ContextSegment
  totalTokens : UInt64
  budget : UInt64
  droppedCount : Nat
  deriving DecidableEq

structure ContextAssembler where
  tokenBudget : UInt64
  deriving DecidableEq

/-- `Reverse(priority)`: the highest first. -/
def segmentKey (segment : ContextSegment) : Int :=
  -segment.priority.toNat

def ContextAssembler.assemble (assembler : ContextAssembler) (segments : List ContextSegment) :
    Option AssembledContext :=
  (pack ContextSegment.estimatedTokens assembler.tokenBudget (sortBy segmentKey segments)).map
    fun packed =>
      { segments := packed.items
        totalTokens := packed.total
        budget := assembler.tokenBudget
        droppedCount := packed.dropped }

/-- What `ContextWindow.Packs` says, of an assembled context. -/
structure AssembledContext.Packs (context : AssembledContext) (segments : List ContextSegment)
    (tokenBudget : UInt64) : Prop where
  total : (context.segments.map fun segment => segment.estimatedTokens.toNat).sum =
    context.totalTokens.toNat
  within : context.totalTokens.toNat ≤ tokenBudget.toNat
  count : context.segments.length + context.droppedCount = segments.length
  greedy : IsPacking (sizes ContextSegment.estimatedTokens) tokenBudget.toNat
    (sortBy segmentKey segments) context.segments

theorem assemble_iff (tokenBudget : UInt64) (segments : List ContextSegment) :
    (∃ context, ContextAssembler.assemble ⟨tokenBudget⟩ segments = some context ∧
      context.Packs segments tokenBudget) ↔
      SumsFit ContextSegment.estimatedTokens tokenBudget.toNat (sortBy segmentKey segments) := by
  refine exists_map_pack_iff ?_
  rintro packed hagrees
  exact ⟨hagrees.total.symm, hagrees.total_le, hagrees.dropped.trans sortBy_perm.length_eq,
    hagrees.isPacking⟩

/-- Both loops pack within their budget exactly when no sum that is compared overflows. -/
theorem packing_iff (maxTokens reservedTokens : UInt64) (budget : ContextBudget)
    (hbudget : ContextBudget.new maxTokens reservedTokens = .ok budget) (candidates : List MemoryEntry)
    (tokenBudget : UInt64) (segments : List ContextSegment) :
    ((∃ window, assembleContext candidates budget = some window ∧ window.Packs candidates budget) ↔
      SumsFit MemoryEntry.tokenEstimate budget.tokens (sortBy candidateKey candidates)) ∧
    ((∃ context, ContextAssembler.assemble ⟨tokenBudget⟩ segments = some context ∧
        context.Packs segments tokenBudget) ↔
      SumsFit ContextSegment.estimatedTokens tokenBudget.toNat (sortBy segmentKey segments)) :=
  ⟨assembleContext_iff maxTokens reservedTokens budget hbudget candidates,
    assemble_iff tokenBudget segments⟩

/-- A candidate of one token and the greatest estimate there is. -/
def hugeCandidates : List MemoryEntry :=
  [{ id := "a", summary := "a", createdAt := 0, tokenEstimate := 1, relevance := 0 },
   { id := "b", summary := "b", createdAt := 0, tokenEstimate := 0xFFFFFFFFFFFFFFFF, relevance := 0 }]

def hugeSegments : List ContextSegment :=
  [{ label := "a", content := "a", priority := 1, estimatedTokens := 1 },
   { label := "b", content := "b", priority := 0, estimatedTokens := 0xFFFFFFFFFFFFFFFF }]

/-- Two candidates that fit one by one, but not together. -/
def fewCandidates : List MemoryEntry :=
  [{ id := "a", summary := "a", createdAt := 0, tokenEstimate := 4, relevance := 0 },
   { id := "b", summary := "b", createdAt := 0, tokenEstimate := 8, relevance := 0 }]

def fewSegments : List ContextSegment :=
  [{ label := "a", content := "a", priority := 1, estimatedTokens := 4 },
   { label := "b", content := "b", priority := 0, estimatedTokens := 8 }]

/-- The first is kept and the other dropped. -/
theorem packing_iff_few :
    (∃ window, assembleContext fewCandidates ⟨10, 0⟩ = some window ∧ window.Packs fewCandidates ⟨10, 0⟩ ∧
      window.items.map ContextItem.entryId = ["a"] ∧ window.totalTokens = 4 ∧ window.droppedCount = 1) ∧
    (∃ context, ContextAssembler.assemble ⟨10⟩ fewSegments = some context ∧ context.Packs fewSegments 10 ∧
      context.segments.map ContextSegment.label = ["a"] ∧ context.totalTokens = 4 ∧ context.droppedCount = 1) := by
  have hpacking := packing_iff 10 0 ⟨10, 0⟩ rfl fewCandidates 10 fewSegments
  have hcandidates : SumsFit MemoryEntry.tokenEstimate 10 (sortBy candidateKey fewCandidates) := by
    have hsorted : sortBy candidateKey fewCandidates =
        ([] ++ fewCandidates.take 1) ++ fewCandidates.drop 1 := by decide
    rw [hsorted]
    exact forallSplits_concat.2 ⟨forallSplits_concat.2 ⟨forallSplits_nil, by decide⟩, by decide⟩
  have hsegments : SumsFit ContextSegment.estimatedTokens 10 (sortBy segmentKey fewSegments) := by
    have hsorted : sortBy segmentKey fewSegments = ([] ++ fewSegments.take 1) ++ fewSegments.drop 1 := by decide
    rw [hsorted]
    exact forallSplits_concat.2 ⟨forallSplits_concat.2 ⟨forallSplits_nil, by decide⟩, by decide⟩
  constructor
  · obtain ⟨window, hwindow, hpacks⟩ := hpacking.1.2 hcandidates
    have hvalue : assembleContext fewCandidates ⟨10, 0⟩ = some ⟨[⟨"a", "a", 4⟩], 4, 1, ⟨10, 0⟩⟩ := by decide
    obtain rfl := Option.some.inj (hwindow.symm.trans hvalue)
    exact ⟨_, hwindow, hpacks, rfl, rfl, rfl⟩
  · obtain ⟨context, hcontext, hpacks⟩ := hpacking.2.2 hsegments
    have hvalue : ContextAssembler.assemble ⟨10⟩ fewSegments = some ⟨fewSegments.take 1, 4, 10, 1⟩ := by decide
    obtain rfl := Option.some.inj (hcontext.symm.trans hvalue)
    exact ⟨_, hcontext, hpacks, rfl, rfl, rfl⟩

theorem packing_overflows :
    (¬ ∀ maxTokens reservedTokens budget, ContextBudget.new maxTokens reservedTokens = .ok budget →
      ∀ candidates, ∃ window, assembleContext candidates budget = some window ∧
        window.Packs candidates budget) ∧
    (¬ ∀ tokenBudget segments, ∃ context,
      ContextAssembler.assemble ⟨tokenBudget⟩ segments = some context ∧
        context.Packs segments tokenBudget) := by
  constructor
  · intro h
    obtain ⟨window, hwindow, _⟩ := h 10 0 ⟨10, 0⟩ rfl hugeCandidates
    have hnone : assembleContext hugeCandidates ⟨10, 0⟩ = none := by decide
    rw [hnone] at hwindow
    cases hwindow
  · intro h
    obtain ⟨context, hcontext, _⟩ := h 10 hugeSegments
    have hnone : ContextAssembler.assemble ⟨10⟩ hugeSegments = none := by decide
    rw [hnone] at hcontext
    cases hcontext

end MemoryContext
end Aivcs
