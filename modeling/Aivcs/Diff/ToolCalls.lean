import Mathlib.Data.String.Basic
import Aivcs.Domain.Digest
import Aivcs.Lib.Hash
import Aivcs.Lib.JsonNulls
import Aivcs.Lib.Lcs
import Aivcs.State.Types

/-!
# Diff.ToolCalls — tool-call diffs with reorders

`diff/tool_calls.rs`: the tool calls of two runs are aligned by a longest common subsequence of their names.
A call that is not aligned is paired with the first call of its name on the other side that is not taken yet,
and reported as reordered; what has no partner was removed or added.
-/

namespace Aivcs
namespace Diff
namespace ToolCalls

open Aivcs.Lib
open Aivcs.Domain (Number Value)
open Aivcs.State (RunEvent)

structure ToolCall where
  seq : Nat
  toolName : String
  params : Doc Number

structure ParamDelta where
  key : String
  before : Doc Number
  after : Doc Number

inductive ToolCallChange where
  | added (call : ToolCall)
  | removed (call : ToolCall)
  | reordered (call : ToolCall) (fromIndex toIndex : Nat)
  | paramChanged (toolName : String) (seqA seqB : Nat) (deltas : List ParamDelta)

structure ToolCallDiff where
  changes : List ToolCallChange

/-- Calls whose payload names no tool are left out. -/
def extractToolCalls (events : List (RunEvent Value)) : List ToolCall :=
  (events.filter fun e => e.kind = "tool_called").filterMap fun e =>
    ((e.payload.doc.get? "tool_name").bind Doc.asStr?).map fun toolName =>
      { seq := e.seq, toolName := toolName, params := e.payload.doc }

def lcsAlignment (callsA callsB : List ToolCall) : List (Nat × Nat) :=
  Lcs.alignment (callsA.map ToolCall.toolName) (callsB.map ToolCall.toolName)

/-! ## Parameters -/

/-- What a call of `param_delta_recursive` pushes. -/
def paramDeltaRecursive (pre : String) (a b : Doc Number) : List ParamDelta :=
  if Doc.Same Number.Equal a b then
    []
  else
    match a, b with
    | .obj objA, .obj objB =>
        -- `all_keys`, sorted and without duplicates
        let allKeys := (Iteration.sorted String).list (objA.map Prod.fst ++ objB.map Prod.fst).toFinset
        allKeys.flatMap fun key =>
          let childPath := if pre = "" then key else pre ++ "." ++ key
          paramDeltaRecursive childPath (Doc.memberAt objA key) (Doc.memberAt objB key)
    -- arrays are compared as a whole
    | _, _ => [{ key := if pre = "" then "." else pre, before := a, after := b }]
  termination_by sizeOf a
  decreasing_by
  · exact Doc.sizeOf_memberAt_lt objA key

def paramDelta (a b : Doc Number) : List ParamDelta :=
  paramDeltaRecursive "" a b

/-! ## Sequences -/

/-- The `ParamChanged` of two calls, if their parameters differ. -/
def paramChanges (callA callB : ToolCall) : List ToolCallChange :=
  let deltas := paramDelta callA.params callB.params
  if deltas.isEmpty then []
  else [.paramChanged callA.toolName callA.seq callB.seq deltas]

/-- The changes of aligned calls. -/
def alignedChanges (callsA callsB : List ToolCall) (alignment : List (Nat × Nat)) :
    List ToolCallChange :=
  alignment.flatMap fun pair =>
    match callsA[pair.1]?, callsB[pair.2]? with
    | some callA, some callB => paramChanges callA callB
    -- an alignment has no index out of range
    | _, _ => []

/-- The calls with their indices, less those whose index is in the set. -/
def unaligned (aligned : List Nat) (calls : List ToolCall) : List (ToolCall × Nat) :=
  calls.zipIdx.filter fun x => x.2 ∉ aligned

/-- `reorder_target`: the first call of the name that is neither aligned nor matched. -/
def reorderTarget (callsB : List ToolCall) (alignedB matchedB : List Nat) (toolName : String) :
    Option (ToolCall × Nat) :=
  callsB.zipIdx.find? fun x => x.2 ∉ alignedB ∧ x.2 ∉ matchedB ∧ x.1.toolName = toolName

/-- The loop over the unaligned calls of A: its changes, and the indices it has matched. -/
def reconcile (callsB : List ToolCall) (alignedB : List Nat) :
    List (ToolCall × Nat) → List Nat → List ToolCallChange × List Nat
  | [], matchedB => ([], matchedB)
  | (callA, iA) :: rest, matchedB =>
      match reorderTarget callsB alignedB matchedB callA.toolName with
      | some (callB, iB) =>
          let later := reconcile callsB alignedB rest (iB :: matchedB)
          (paramChanges callA callB ++ .reordered callB iA iB :: later.1, later.2)
      | none =>
          let later := reconcile callsB alignedB rest matchedB
          (.removed callA :: later.1, later.2)

def diffToolCalls (a b : List (RunEvent Value)) : ToolCallDiff :=
  let callsA := extractToolCalls a
  let callsB := extractToolCalls b
  let alignment := lcsAlignment callsA callsB
  let alignedA := alignment.map Prod.fst
  let alignedB := alignment.map Prod.snd
  let reconciled := reconcile callsB alignedB (unaligned alignedA callsA) []
  let added := (unaligned alignedB callsB).filter fun x => x.2 ∉ reconciled.2
  { changes :=
      alignedChanges callsA callsB alignment ++ reconciled.1 ++ added.map fun x => .added x.1 }

end ToolCalls
end Diff
end Aivcs
