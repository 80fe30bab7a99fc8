import Aivcs.Domain.Digest
import Aivcs.Lib.Hash
import Aivcs.Lib.JsonNulls
import Aivcs.Lib.Lcs
import Aivcs.State.Types

/-!
# Diff.LcsDiff — tool-call diffs with JSON Pointers

`diff/lcs_diff.rs`: the tool calls of two runs are aligned by a longest common subsequence of their names,
and the payloads of aligned calls are compared by `json_diff`.

`json_diff` walks the keys of an object in the order of a hash set made for that object; an order is a
function of the way down to the object.
-/

namespace Aivcs
namespace Diff
namespace LcsDiff

open Aivcs.Lib
open Aivcs.Domain (Number Value)
open Aivcs.State (RunEvent)

structure ToolCallEntry where
  seq : Nat
  toolName : String
  payload : Doc Number

structure ParamChange where
  pointer : String
  valueA : Doc Number
  valueB : Doc Number

inductive ToolCallChange where
  | added (entry : ToolCallEntry)
  | removed (entry : ToolCallEntry)
  | reordered (toolName : String) (seqA seqB : Nat)
  | paramDelta (toolName : String) (seqA seqB : Nat) (changes : List ParamChange)

structure DiffSummary where
  runIdA : String
  runIdB : String
  changes : List ToolCallChange
  identical : Bool

def extractToolCalls (events : List (RunEvent Value)) : List ToolCallEntry :=
  (events.filter fun e => e.kind = "tool_called").map fun e =>
    { seq := e.seq
      toolName := ((e.payload.doc.get? "tool_name").bind Doc.asStr?).getD "unknown"
      payload := e.payload.doc }

def lcsAlignment (callsA callsB : List ToolCallEntry) : List (Nat × Nat) :=
  Lcs.alignment (callsA.map ToolCallEntry.toolName) (callsB.map ToolCallEntry.toolName)

/-! ## Payloads -/

/-- The orders in which one call of `json_diff` walks the keys of objects, by the way down to them. -/
abbrev KeyOrder : Type := List String → Iteration String

/-- The orders below a member or an element. -/
def KeyOrder.below (order : KeyOrder) (step : String) : KeyOrder :=
  fun path => order (step :: path)

def jsonDiff (order : KeyOrder) (pre : String) (valA valB : Doc Number) : List ParamChange :=
  if Doc.Same Number.Equal valA valB then
    []
  else
    match valA, valB with
    | .obj objA, .obj objB =>
        let keys := (objA.map Prod.fst ++ objB.map Prod.fst).toFinset
        ((order []).list keys).flatMap fun key =>
          -- the key as it is: nothing is escaped
          let path := if pre = "" then "/" ++ key else pre ++ "/" ++ key
          jsonDiff (order.below key) path (Doc.memberAt objA key) (Doc.memberAt objB key)
    | .arr arrA, .arr arrB =>
        -- the shorter array goes on with nulls
        (List.range (max arrA.length arrB.length)).flatMap fun i =>
          let path := pre ++ "/" ++ toString i
          jsonDiff (order.below (toString i)) path (Doc.elemAt arrA i) (Doc.elemAt arrB i)
    | _, _ => [{ pointer := if pre = "" then "/" else pre, valueA := valA, valueB := valB }]
  termination_by sizeOf valA
  decreasing_by
  · exact Doc.sizeOf_memberAt_lt objA key
  · exact Doc.sizeOf_elemAt_lt arrA i

/-! ## Sequences -/

/-- `is_reordered`: the calls of a pair and of the one before it, whose indices are smaller. -/
def isReordered (prev pair : Nat × Nat) (prevA callA prevB callB : ToolCallEntry) : Bool :=
  (decide (prev.1 < pair.1) != decide (prevA.seq < callA.seq)) ||
    (decide (prev.2 < pair.2) != decide (prevB.seq < callB.seq))

/-- What a pair of aligned calls is reported as. -/
def pairChanges (order : KeyOrder) (reordered : Bool) (callA callB : ToolCallEntry) :
    List ToolCallChange :=
  if reordered then
    -- the payloads of a reordered pair are not compared
    [.reordered callA.toolName callA.seq callB.seq]
  else
    let paramChanges := jsonDiff order "" callA.payload callB.payload
    if paramChanges.isEmpty then []
    else [.paramDelta callA.toolName callA.seq callB.seq paramChanges]

/-- The changes of a pair of the alignment; `prev` is the pair before. -/
def alignedCall (order : Nat × Nat → KeyOrder) (callsA callsB : List ToolCallEntry)
    (prev : Option (Nat × Nat)) (pair : Nat × Nat) : List ToolCallChange :=
  match callsA[pair.1]?, callsB[pair.2]? with
  | some callA, some callB =>
      let reordered :=
        match prev with
        | none => false
        | some prev =>
            match callsA[prev.1]?, callsB[prev.2]? with
            | some prevA, some prevB => isReordered prev pair prevA callA prevB callB
            -- an alignment has no index out of range
            | _, _ => false
      pairChanges (order pair) reordered callA callB
  | _, _ => []

/-- The loop over the alignment. -/
def alignedChanges (order : Nat × Nat → KeyOrder) (callsA callsB : List ToolCallEntry) :
    Option (Nat × Nat) → List (Nat × Nat) → List ToolCallChange
  | _, [] => []
  | prev, pair :: pairs =>
      alignedCall order callsA callsB prev pair ++ alignedChanges order callsA callsB (some pair) pairs

/-- The calls whose index is not in the set. -/
def unaligned (aligned : List Nat) (calls : List ToolCallEntry) : List ToolCallEntry :=
  (calls.zipIdx.filter fun x => x.2 ∉ aligned).map Prod.fst

def diffToolCalls (order : Nat × Nat → KeyOrder) (runIdA : String) (eventsA : List (RunEvent Value))
    (runIdB : String) (eventsB : List (RunEvent Value)) : DiffSummary :=
  let callsA := extractToolCalls eventsA
  let callsB := extractToolCalls eventsB
  let alignment := lcsAlignment callsA callsB
  let changes :=
    (unaligned (alignment.map Prod.fst) callsA).map .removed ++
      alignedChanges order callsA callsB none alignment ++
      (unaligned (alignment.map Prod.snd) callsB).map .added
  { runIdA := runIdA
    runIdB := runIdB
    changes := changes
    identical := changes.isEmpty }

end LcsDiff
end Diff
end Aivcs
