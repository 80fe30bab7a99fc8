import Mathlib.Data.Prod.Lex
import Mathlib.Data.String.Basic
import Aivcs.Lib.Packing
import Aivcs.Lib.SortBy
import Aivcs.Memory.Retention

/-!
# Memory.Context — entries packed into a context window

`memory::context`: the candidates are sorted by relevance and packed greedily into what the budget leaves
after its reserve.  The sum that is compared with it is not checked; where it overflows the window is
`none`.

`assembleContext_iff` is the exact condition under which the window is assembled within its budget.
-/

namespace Aivcs
namespace Memory

open Aivcs.Lib Aivcs.State

/-! ## Budgets and windows -/

structure ContextBudget where
  maxTokens : UInt64
  reservedTokens : UInt64
  deriving DecidableEq

def ContextBudget.new (maxTokens reservedTokens : UInt64) : Except String ContextBudget :=
  if maxTokens ≤ reservedTokens then
    .error s!"reserved_tokens ({reservedTokens}) must be less than max_tokens ({maxTokens})"
  else
    .ok { maxTokens := maxTokens, reservedTokens := reservedTokens }

/-- `max_tokens - reserved_tokens`. -/
def ContextBudget.available (budget : ContextBudget) : Option UInt64 :=
  if budget.reservedTokens ≤ budget.maxTokens then
    some (budget.maxTokens - budget.reservedTokens)
  else
    none

structure ContextItem where
  entryId : String
  text : String
  tokens : UInt64
  deriving DecidableEq

structure ContextWindow where
  items : List ContextItem
  totalTokens : UInt64
  droppedCount : Nat
  budget : ContextBudget
  deriving DecidableEq

/-! ## The order of the candidates -/

/-- The exponent has a zero bit. -/
def isFinite (bits : UInt64) : Bool :=
  decide (bits.toNat / 2 ^ 52 % 2 ^ 11 ≠ 2047)

def negInfinity : UInt64 := 0xFFF0000000000000

/-- What `f64::total_cmp` compares: the bits as a signed number, the lower ones inverted where the sign
is set. -/
def totalOrder (bits : UInt64) : Int :=
  if bits.toNat < 2 ^ 63 then bits.toNat else 2 ^ 63 - 1 - bits.toNat

def score (entry : MemoryEntry) : Int :=
  totalOrder (if isFinite entry.relevance then entry.relevance else negInfinity)

/-- The most relevant first, of these the newest, of these the one with the least id. -/
def candidateKey (entry : MemoryEntry) : Int ×ₗ Int ×ₗ String :=
  toLex (-score entry, toLex (-entry.createdAt, entry.id))

/-! ## Assembly -/

def MemoryEntry.toItem (entry : MemoryEntry) : ContextItem :=
  { entryId := entry.id, text := entry.summary, tokens := entry.tokenEstimate }

def assembleContext (candidates : List MemoryEntry) (budget : ContextBudget) : Option ContextWindow :=
  match budget.available with
  | none => none
  | some available =>
      (pack MemoryEntry.tokenEstimate available (sortBy candidateKey candidates)).map fun packed =>
        { items := packed.items.map MemoryEntry.toItem
          totalTokens := packed.total
          droppedCount := packed.dropped
          budget := budget }

/-- The tokens a budget leaves. -/
def ContextBudget.tokens (budget : ContextBudget) : Nat :=
  budget.maxTokens.toNat - budget.reservedTokens.toNat

/-- The window holds candidates in sorted order: their tokens sum up to its total, which is within the
budget, the others are counted, and one is left out only where it would exceed the budget. -/
structure ContextWindow.Packs (window : ContextWindow) (candidates : List MemoryEntry)
    (budget : ContextBudget) : Prop where
  total : (window.items.map fun item => item.tokens.toNat).sum = window.totalTokens.toNat
  within : window.totalTokens.toNat ≤ budget.tokens
  count : window.items.length + window.droppedCount = candidates.length
  greedy : ∃ included, window.items = included.map MemoryEntry.toItem ∧
    IsPacking (sizes MemoryEntry.tokenEstimate) budget.tokens (sortBy candidateKey candidates) included

theorem available_of_new {maxTokens reservedTokens : UInt64} {budget : ContextBudget}
    (h : ContextBudget.new maxTokens reservedTokens = .ok budget) :
    ∃ available, budget.available = some available ∧ available.toNat = budget.tokens := by
  rw [ContextBudget.new] at h
  by_cases hle : maxTokens ≤ reservedTokens
  · rw [if_pos hle] at h
    cases h
  · rw [if_neg hle] at h
    cases h
    have hlt : reservedTokens ≤ maxTokens := UInt64.le_of_lt (UInt64.not_le.1 hle)
    exact ⟨_, if_pos hlt, UInt64.toNat_sub_of_le _ _ hlt⟩

/-- A window is assembled within its budget exactly when no sum that is compared overflows. -/
theorem assembleContext_iff (maxTokens reservedTokens : UInt64) (budget : ContextBudget)
    (hbudget : ContextBudget.new maxTokens reservedTokens = .ok budget) (candidates : List MemoryEntry) :
    (∃ window, assembleContext candidates budget = some window ∧ window.Packs candidates budget) ↔
      SumsFit MemoryEntry.tokenEstimate budget.tokens (sortBy candidateKey candidates) := by
  obtain ⟨available, havailable, htokens⟩ := available_of_new hbudget
  have hassemble : assembleContext candidates budget =
      (pack MemoryEntry.tokenEstimate available (sortBy candidateKey candidates)).map fun packed =>
        { items := packed.items.map MemoryEntry.toItem
          totalTokens := packed.total
          droppedCount := packed.dropped
          budget := budget } := by
    rw [assembleContext, havailable]
  rw [hassemble, ← htokens]
  refine exists_map_pack_iff ?_
  rintro packed hagrees
  refine ⟨?_, htokens ▸ hagrees.total_le, ?_, packed.items, rfl, htokens ▸ hagrees.isPacking⟩
  · rw [hagrees.total, List.map_map]
    rfl
  · rw [List.length_map, hagrees.dropped, sortBy_perm.length_eq]

end Memory
end Aivcs
