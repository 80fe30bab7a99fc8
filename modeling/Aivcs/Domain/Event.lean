import Aivcs.Domain.Digest
import Aivcs.State.Types

/-!
# Domain.Event — run events and their JSON

`EventKind` is an enumeration tagged by a member `type`: `toValue` is what serialising it gives, and `read`
reads a kind back from its tag and the members, wherever these are found.
-/

namespace Aivcs
namespace Domain

open Lib State

inductive EventKind where
  | graphStarted
  | graphCompleted (iterations : UInt32) (durationMs : UInt64)
  | graphFailed (error : String)
  | nodeEntered (nodeId : String) (iteration : UInt32)
  | nodeExited (nodeId : String) (nextNode : Option String) (durationMs : UInt64)
  | nodeFailed (nodeId error : String)
  | toolCalled (toolName : String)
  | toolReturned (toolName : String)
  | toolFailed (toolName : String)
  | checkpointSaved (checkpointId nodeId : String)
  | checkpointRestored (checkpointId nodeId : String)
  | checkpointDeleted (checkpointId : String)
  | stateUpdated (nodeId : String) (keysChanged : List String)
  | messageAdded (role : String) (contentLength : UInt64)
  | graphInterrupted (reason nodeId : String)
  | nodeRetrying (nodeId : String) (attempt : UInt32) (delayMs : UInt64)
  deriving DecidableEq

structure Event where
  runId : String
  seq : Nat
  timestamp : Timestamp
  kind : EventKind
  payload : Value

/-! ## Serialising -/

def Number.ofUInt64 (n : UInt64) : Number :=
  .int n.toNat ⟨by omega, by exact_mod_cast n.toNat_lt⟩

def Number.ofInt32 (n : Int32) : Number :=
  .int n.toInt (by
    have hlow := n.le_toInt
    have hhigh := n.toInt_lt
    omega)

namespace EventKind

/-- The text of `type`. -/
def tag : EventKind → String
  | .graphStarted => "graph_started"
  | .graphCompleted .. => "graph_completed"
  | .graphFailed .. => "graph_failed"
  | .nodeEntered .. => "node_entered"
  | .nodeExited .. => "node_exited"
  | .nodeFailed .. => "node_failed"
  | .toolCalled .. => "tool_called"
  | .toolReturned .. => "tool_returned"
  | .toolFailed .. => "tool_failed"
  | .checkpointSaved .. => "checkpoint_saved"
  | .checkpointRestored .. => "checkpoint_restored"
  | .checkpointDeleted .. => "checkpoint_deleted"
  | .stateUpdated .. => "state_updated"
  | .messageAdded .. => "message_added"
  | .graphInterrupted .. => "graph_interrupted"
  | .nodeRetrying .. => "node_retrying"

def u32 (n : UInt32) : Doc Number :=
  .num (.ofUInt64 n.toUInt64)

def u64 (n : UInt64) : Doc Number :=
  .num (.ofUInt64 n)

def optStr : Option String → Doc Number
  | none => .null
  | some s => .str s

/-- The other members. -/
def fields : EventKind → List (String × Doc Number)
  | .graphStarted => []
  | .graphCompleted iterations durationMs =>
      [("iterations", u32 iterations), ("duration_ms", u64 durationMs)]
  | .graphFailed error => [("error", .str error)]
  | .nodeEntered nodeId iteration => [("node_id", .str nodeId), ("iteration", u32 iteration)]
  | .nodeExited nodeId nextNode durationMs =>
      [("node_id", .str nodeId), ("next_node", optStr nextNode), ("duration_ms", u64 durationMs)]
  | .nodeFailed nodeId error => [("node_id", .str nodeId), ("error", .str error)]
  | .toolCalled toolName => [("tool_name", .str toolName)]
  | .toolReturned toolName => [("tool_name", .str toolName)]
  | .toolFailed toolName => [("tool_name", .str toolName)]
  | .checkpointSaved checkpointId nodeId =>
      [("checkpoint_id", .str checkpointId), ("node_id", .str nodeId)]
  | .checkpointRestored checkpointId nodeId =>
      [("checkpoint_id", .str checkpointId), ("node_id", .str nodeId)]
  | .checkpointDeleted checkpointId => [("checkpoint_id", .str checkpointId)]
  | .stateUpdated nodeId keysChanged =>
      [("node_id", .str nodeId), ("keys_changed", .arr (keysChanged.map .str))]
  | .messageAdded role contentLength =>
      [("role", .str role), ("content_length", u64 contentLength)]
  | .graphInterrupted reason nodeId => [("reason", .str reason), ("node_id", .str nodeId)]
  | .nodeRetrying nodeId attempt delayMs =>
      [("node_id", .str nodeId), ("attempt", u32 attempt), ("delay_ms", u64 delayMs)]

/-- `serde_json::to_value(kind)`. -/
def toValue (kind : EventKind) : Doc Number :=
  .obj (("type", .str kind.tag) :: kind.fields)

theorem fields_nodup (kind : EventKind) : (kind.fields.map Prod.fst).Nodup := by
  cases kind <;> simp [fields]

theorem type_not_mem_fields (kind : EventKind) : "type" ∉ kind.fields.map Prod.fst := by
  cases kind <;> simp [fields]

theorem uniqueKeys_fields (kind : EventKind) : ∀ m ∈ kind.fields, Doc.UniqueKeys m.2 := by
  have hopt : ∀ o : Option String, (optStr o).UniqueKeys := by
    intro o
    cases o <;> trivial
  cases kind <;> simp [fields, u32, u64, hopt]

/-! ## Reading back -/

def readU64 : Doc Number → Option UInt64
  | .num (.int n _) => some (UInt64.ofNat n.toNat)
  | _ => none

def readU32 (v : Doc Number) : Option UInt32 :=
  (readU64 v).map UInt64.toUInt32

def readOptStr : Doc Number → Option (Option String)
  | .null => some none
  | .str s => some (some s)
  | _ => none

def readStrs : Doc Number → Option (List String)
  | .arr xs => xs.mapM Doc.asStr?
  | _ => none

/-- The kind with this tag, its fields looked up with `get`. -/
def read (tag : String) (get : String → Option (Doc Number)) : Option EventKind :=
  let str (k : String) := (get k).bind Doc.asStr?
  let u32 (k : String) := (get k).bind readU32
  let u64 (k : String) := (get k).bind readU64
  match tag with
  | "graph_started" => some .graphStarted
  | "graph_completed" => do return .graphCompleted (← u32 "iterations") (← u64 "duration_ms")
  | "graph_failed" => do return .graphFailed (← str "error")
  | "node_entered" => do return .nodeEntered (← str "node_id") (← u32 "iteration")
  | "node_exited" => do
      return .nodeExited (← str "node_id") (← (get "next_node").bind readOptStr) (← u64 "duration_ms")
  | "node_failed" => do return .nodeFailed (← str "node_id") (← str "error")
  | "tool_called" => do return .toolCalled (← str "tool_name")
  | "tool_returned" => do return .toolReturned (← str "tool_name")
  | "tool_failed" => do return .toolFailed (← str "tool_name")
  | "checkpoint_saved" => do return .checkpointSaved (← str "checkpoint_id") (← str "node_id")
  | "checkpoint_restored" => do return .checkpointRestored (← str "checkpoint_id") (← str "node_id")
  | "checkpoint_deleted" => do return .checkpointDeleted (← str "checkpoint_id")
  | "state_updated" => do
      return .stateUpdated (← str "node_id") (← (get "keys_changed").bind readStrs)
  | "message_added" => do return .messageAdded (← str "role") (← u64 "content_length")
  | "graph_interrupted" => do return .graphInterrupted (← str "reason") (← str "node_id")
  | "node_retrying" => do
      return .nodeRetrying (← str "node_id") (← u32 "attempt") (← u64 "delay_ms")
  | _ => none

@[simp] theorem readU64_u64 (n : UInt64) : readU64 (u64 n) = some n := by
  simp [u64, Number.ofUInt64, readU64]

@[simp] theorem readU32_u32 (n : UInt32) : readU32 (u32 n) = some n := by
  rw [readU32, u32, ← u64, readU64_u64]
  simp

@[simp] theorem readOptStr_optStr (o : Option String) : readOptStr (optStr o) = some o := by
  cases o <;> rfl

@[simp] theorem readStrs_arr (ss : List String) : readStrs (.arr (ss.map .str)) = some ss := by
  rw [readStrs]
  induction ss with
  | nil =>
      rfl
  | cons s ss ih =>
      simp [Doc.asStr?, ih]

/-- A kind is read back from its tag and anything that has its fields. -/
theorem read_of_fields (kind : EventKind) {get : String → Option (Doc Number)}
    (h : ∀ m ∈ kind.fields, get m.1 = some m.2) : read kind.tag get = some kind := by
  -- One case for each variant: its fields are found, and each is read back.
  cases kind <;> simp [fields] at h <;> simp [read, tag, h, Doc.asStr?]

end EventKind

end Domain
end Aivcs
