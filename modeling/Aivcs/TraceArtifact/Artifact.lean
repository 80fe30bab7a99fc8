import Aivcs.Lib.Digest
import Aivcs.Lib.Json
import Aivcs.Lib.Map
import Aivcs.Lib.Text
import Aivcs.State.Types

/-!
# TraceArtifact.Artifact — writing and reading the artifact of a run

`write_trace_artifact` stores the record as `trace.json` beside a `trace.digest` that holds its replay
digest; `read_trace_artifact` compares that file with the digest in the record, and the digest in the
record with the one of its events.  Neither comparison looks at another field of the record.

The JSON texts and the hash are code of other packages and stand as parameters.
-/

namespace Aivcs
namespace TraceArtifact

open Aivcs.Lib Aivcs.State

structure RunTraceArtifact (Value : Type) where
  runId : String
  specDigest : String
  agentName : String
  status : String
  createdAt : Timestamp
  completedAt : Option Timestamp
  events : List (RunEvent Value)
  replayDigest : String
  eventCount : Nat
  deriving DecidableEq

variable {Value : Type}

/-- `format!("{:?}", status)`. -/
def debugStatus : RunStatus → String
  | .running => "Running"
  | .completed => "Completed"
  | .failed => "Failed"
  | .cancelled => "Cancelled"

def RunTraceArtifact.fromReplay (record : RunRecord Value) (events : List (RunEvent Value))
    (replayDigest : String) : RunTraceArtifact Value where
  runId := record.runId
  specDigest := record.specDigest.str
  agentName := record.metadata.agentName
  status := debugStatus record.status
  createdAt := record.createdAt
  completedAt := record.completedAt
  events := events
  replayDigest := replayDigest
  eventCount := events.length

/-- What `serde_json` writes and reads. -/
structure Codec (Value : Type) where
  eventsJson : List (RunEvent Value) → Bytes
  artifactJson : RunTraceArtifact Value → Bytes
  parseArtifact : Bytes → Option (RunTraceArtifact Value)

/-! ## Files -/

/-- The content of the files, by path. -/
abbrev Files := Map String Bytes

/-- `Path::join`: an absolute path replaces what it is joined to. -/
def join (dir name : String) : String :=
  if name.toList.head? = some '/' then name
  else if dir = "" ∨ dir.toList.getLast? = some '/' then dir ++ name
  else dir ++ "/" ++ name

def tracePath (dir runId : String) : String :=
  join (join dir runId) "trace.json"

def digestPath (dir runId : String) : String :=
  join (join dir runId) "trace.digest"

inductive ReadError
  | notFound (path : String)
  | invalidUtf8
  | json
  | digestMismatch (expected actual : String)
  deriving DecidableEq

/-- The path of `trace.json` and the files afterwards.  A file system that refuses one of the two files
ends the operation with an error instead. -/
def writeTraceArtifact (codec : Codec Value) (artifact : RunTraceArtifact Value) (dir : String)
    (files : Files) : String × Files :=
  let files := files.insert (tracePath dir artifact.runId) (codec.artifactJson artifact)
  let files := files.insert (digestPath dir artifact.runId) (utf8 artifact.replayDigest)
  (tracePath dir artifact.runId, files)

/-- `read_to_string(..)?.trim()` of the companion file, where there is one. -/
def companionDigest (files : Files) (path : String) : Except ReadError (Option String) :=
  match files path with
  | none => .ok none
  | some content =>
      match ofUtf8? content with
      | none => .error .invalidUtf8
      | some text => .ok (some (String.ofList (trimBoth isWhitespace text.toList)))

/-- The second check: the digest recomputed from the events. -/
def checkEvents (codec : Codec Value) (sha256Hex : Bytes → String)
    (artifact : RunTraceArtifact Value) : Except ReadError (RunTraceArtifact Value) :=
  let actual := sha256Hex (codec.eventsJson artifact.events)
  if actual ≠ artifact.replayDigest then .error (.digestMismatch artifact.replayDigest actual)
  else .ok artifact

def readTraceArtifact (codec : Codec Value) (sha256Hex : Bytes → String) (runId dir : String)
    (files : Files) : Except ReadError (RunTraceArtifact Value) :=
  match files (tracePath dir runId) with
  | none => .error (.notFound (tracePath dir runId))
  | some json =>
      match codec.parseArtifact json with
      | none => .error .json
      | some artifact =>
          match companionDigest files (digestPath dir runId) with
          | .error e => .error e
          | .ok none => checkEvents codec sha256Hex artifact
          | .ok (some companion) =>
              if companion ≠ artifact.replayDigest then
                .error (.digestMismatch companion artifact.replayDigest)
              else
                checkEvents codec sha256Hex artifact

/-! ## The two files -/

/-- Different names below one directory are different paths. -/
theorem join_ne {dir name name' : String} (hname : name.toList.head? ≠ some '/')
    (hname' : name'.toList.head? ≠ some '/') (h : name ≠ name') : join dir name ≠ join dir name' := by
  unfold join
  rw [if_neg hname, if_neg hname']
  split
  · exact fun heq => h ((String.append_right_inj _).1 heq)
  · exact fun heq => h ((String.append_right_inj _).1 heq)

theorem digestPath_ne_tracePath (dir runId : String) : digestPath dir runId ≠ tracePath dir runId :=
  join_ne (by decide) (by decide) (by decide)

/-- What is relied on: a digest is text in hexadecimal digits. -/
def HexDigests (sha256Hex : Bytes → String) : Prop :=
  ∀ bs, ∀ c ∈ (sha256Hex bs).toList, isLowerHex c = true

theorem isWhitespace_of_isLowerHex {c : Char} (h : isLowerHex c = true) : isWhitespace c = false := by
  have hrange : 48 ≤ c.toNat ∧ c.toNat ≤ 57 ∨ 97 ≤ c.toNat ∧ c.toNat ≤ 102 := by
    simpa [isLowerHex, Char.le_def, UInt32.le_iff_toNat_le] using h
  unfold isWhitespace
  simp only [Bool.or_eq_false_iff, Bool.and_eq_false_iff, decide_eq_false_iff_not]
  omega

/-- Trimming does nothing to a digest. -/
theorem trimBoth_digest {sha256Hex : Bytes → String} (hhex : HexDigests sha256Hex) (bs : Bytes) :
    trimBoth isWhitespace (sha256Hex bs).toList = (sha256Hex bs).toList := by
  refine Trimmed.trimBoth_eq ⟨fun c hc => ?_, fun c hc => ?_⟩
  · exact isWhitespace_of_isLowerHex (hhex bs c (List.mem_of_mem_head? hc))
  · exact isWhitespace_of_isLowerHex (hhex bs c (List.mem_of_mem_getLast? hc))

/-! ## What a read has checked -/

variable {codec : Codec Value} {sha256Hex : Bytes → String} {a b : RunTraceArtifact Value}

theorem checkEvents_ok_iff : checkEvents codec sha256Hex b = .ok a ↔
    a = b ∧ sha256Hex (codec.eventsJson b.events) = b.replayDigest := by
  unfold checkEvents
  by_cases h : sha256Hex (codec.eventsJson b.events) = b.replayDigest
  · simp [h, eq_comm]
  · simp [h]

/-- A read with a companion file: the document decodes, and the companion, the digest in the record and
the digest of the events are one. -/
theorem readTraceArtifact_ok_iff {runId dir json : _} {companion : String} {files : Files}
    (hjson : files (tracePath dir runId) = some json)
    (hdigest : companionDigest files (digestPath dir runId) = .ok (some companion)) :
    readTraceArtifact codec sha256Hex runId dir files = .ok b ↔
      codec.parseArtifact json = some b ∧ b.replayDigest = companion ∧
        sha256Hex (codec.eventsJson b.events) = companion := by
  unfold readTraceArtifact
  simp only [hjson, hdigest]
  cases codec.parseArtifact json with
  | none =>
      simp
  | some c =>
      by_cases hcompanion : companion = c.replayDigest
      · simp only [if_neg (not_not_intro hcompanion), checkEvents_ok_iff, Option.some.injEq]
        constructor
        · rintro ⟨rfl, hsha⟩
          exact ⟨rfl, hcompanion.symm, hsha.trans hcompanion.symm⟩
        · rintro ⟨rfl, -, hsha⟩
          exact ⟨rfl, hsha.trans hcompanion⟩
      · simp only [if_pos hcompanion, Option.some.injEq]
        constructor
        · intro h
          cases h
        · rintro ⟨rfl, h, -⟩
          exact absurd h.symm hcompanion

/-- The files after an artifact has been written and `trace.json` replaced. -/
def tampered (codec : Codec Value) (a : RunTraceArtifact Value) (dir : String) (files : Files)
    (json : Bytes) : Files :=
  let (path, files) := writeTraceArtifact codec a dir files
  files.insert path json

theorem tampered_trace (dir : String) (files : Files) (json : Bytes) :
    tampered codec a dir files json (tracePath dir a.runId) = some json :=
  Map.insert_self _ _ _

theorem companionDigest_tampered (hhex : HexDigests sha256Hex)
    (ha : a.replayDigest = sha256Hex (codec.eventsJson a.events)) (dir : String) (files : Files)
    (json : Bytes) :
    companionDigest (tampered codec a dir files json) (digestPath dir a.runId)
      = .ok (some a.replayDigest) := by
  have hfile : tampered codec a dir files json (digestPath dir a.runId)
      = some (utf8 a.replayDigest) := by
    calc
      tampered codec a dir files json (digestPath dir a.runId)
          = (writeTraceArtifact codec a dir files).2 (digestPath dir a.runId) :=
            Map.insert_of_ne _ _ (digestPath_ne_tracePath dir a.runId)
      _ = some (utf8 a.replayDigest) := Map.insert_self _ _ _
  simp only [companionDigest, hfile, ofUtf8?_utf8]
  rw [ha, trimBoth_digest hhex, String.ofList_toList]

/-- An artifact that nobody touches is read back. -/
theorem read_written (hhex : HexDigests sha256Hex)
    (ha : a.replayDigest = sha256Hex (codec.eventsJson a.events))
    (hdecode : codec.parseArtifact (codec.artifactJson a) = some a) (dir : String) (files : Files) :
    readTraceArtifact codec sha256Hex a.runId dir (writeTraceArtifact codec a dir files).2 = .ok a := by
  have hsame : (writeTraceArtifact codec a dir files).2
      = tampered codec a dir files (codec.artifactJson a) := by
    refine Map.ext fun path => ?_
    by_cases hpath : path = tracePath dir a.runId
    · calc
        (writeTraceArtifact codec a dir files).2 path
            = (files.insert (tracePath dir a.runId) (codec.artifactJson a)) path :=
              Map.insert_of_ne _ _ (hpath ▸ (digestPath_ne_tracePath dir a.runId).symm)
        _ = some (codec.artifactJson a) := hpath ▸ Map.insert_self _ _ _
        _ = tampered codec a dir files (codec.artifactJson a) path :=
              hpath ▸ (tampered_trace dir files _).symm
    · exact (Map.insert_of_ne _ _ hpath).symm
  rw [hsame, readTraceArtifact_ok_iff (tampered_trace dir files _)
    (companionDigest_tampered hhex ha dir files _)]
  exact ⟨hdecode, rfl, ha.symm⟩

/-- The fields that no digest covers. -/
def SameProvenance (a b : RunTraceArtifact Value) : Prop :=
  b.runId = a.runId ∧ b.specDigest = a.specDigest ∧ b.agentName = a.agentName ∧
    b.status = a.status ∧ b.createdAt = a.createdAt ∧ b.completedAt = a.completedAt ∧
      b.eventCount = a.eventCount

instance [DecidableEq Value] (a b : RunTraceArtifact Value) : Decidable (SameProvenance a b) := by
  unfold SameProvenance
  infer_instance

theorem eq_of_sameProvenance (h : SameProvenance a b) (hevents : b.events = a.events)
    (hdigest : b.replayDigest = a.replayDigest) : b = a := by
  rcases h with ⟨h₁, h₂, h₃, h₄, h₅, h₆, h₇⟩
  cases a
  cases b
  simp_all

/-- What is read after `trace.json` has been replaced: a document with the events and the replay digest
of the record that was written, and anything else. -/
theorem read_tampered_iff (hsha : Function.Injective sha256Hex) (hhex : HexDigests sha256Hex)
    (henc : Function.Injective codec.eventsJson)
    (ha : a.replayDigest = sha256Hex (codec.eventsJson a.events)) (dir : String) (files : Files)
    (json : Bytes) :
    readTraceArtifact codec sha256Hex a.runId dir (tampered codec a dir files json) = .ok b ↔
      codec.parseArtifact json = some b ∧ b.replayDigest = a.replayDigest ∧ b.events = a.events := by
  rw [readTraceArtifact_ok_iff (tampered_trace dir files json)
    (companionDigest_tampered hhex ha dir files json)]
  have hevents : sha256Hex (codec.eventsJson b.events) = a.replayDigest ↔ b.events = a.events := by
    rw [ha]
    exact ⟨fun h => henc (hsha h), fun h => h ▸ rfl⟩
  rw [hevents]

/-- Replacing `trace.json` goes undetected exactly when the new document keeps the events and the replay
digest and changes another field. -/
theorem tamperEvident_iff (hsha : Function.Injective sha256Hex) (hhex : HexDigests sha256Hex)
    (henc : Function.Injective codec.eventsJson)
    (ha : a.replayDigest = sha256Hex (codec.eventsJson a.events)) (dir : String) (files : Files)
    (json : Bytes) :
    (∀ b, readTraceArtifact codec sha256Hex a.runId dir (tampered codec a dir files json) = .ok b →
        b = a) ↔
      ∀ b, codec.parseArtifact json = some b → b.replayDigest = a.replayDigest →
        b.events = a.events → SameProvenance a b := by
  constructor
  · intro h b hparse hdigest hevents
    have hread := (read_tampered_iff hsha hhex henc ha dir files json).2 ⟨hparse, hdigest, hevents⟩
    rw [h b hread]
    exact ⟨rfl, rfl, rfl, rfl, rfl, rfl, rfl⟩
  · intro h b hread
    rcases (read_tampered_iff hsha hhex henc ha dir files json).1 hread with
      ⟨hparse, hdigest, hevents⟩
    exact eq_of_sameProvenance (h b hparse hdigest hevents) hevents hdigest

/-! ## A record whose status is changed -/

/-- 2025-01-01T00:00:00Z. -/
def newYear : Timestamp := 1735689600000000000

/-- The text of one timestamp; the others are written as numbers. -/
def timeJson (t : Timestamp) : Json :=
  if t = newYear then .str "2025-01-01T00:00:00Z" else .num t

def timeOfJson : Json → Option Timestamp
  | .str s => if s = "2025-01-01T00:00:00Z" then some newYear else none
  | .num n => some n
  | _ => none

def natOfJson : Json → Option Nat
  | .num (.ofNat n) => some n
  | _ => none

def eventJson (e : RunEvent Json) : Json :=
  .obj [("seq", .num e.seq), ("kind", .str e.kind), ("payload", e.payload),
    ("timestamp", timeJson e.timestamp)]

/-- A member of an object, read. -/
def member {α : Type} (v : Json) (k : String) (read : Json → Option α) : Option α :=
  (v.field? k).bind read

def eventOfJson (v : Json) : Option (RunEvent Json) := do
  let seq ← member v "seq" natOfJson
  let kind ← member v "kind" Json.asStr?
  let payload ← member v "payload" some
  let timestamp ← member v "timestamp" timeOfJson
  return ⟨seq, kind, payload, timestamp⟩

def completedJson : Option Timestamp → Json
  | none => .null
  | some t => timeJson t

def completedOfJson : Json → Option (Option Timestamp)
  | .null => some none
  | v => (timeOfJson v).map some

def eventsOfJson : Json → Option (List (RunEvent Json))
  | .arr xs => xs.mapM eventOfJson
  | _ => none

def recordJson (a : RunTraceArtifact Json) : Json :=
  .obj [("run_id", .str a.runId), ("spec_digest", .str a.specDigest), ("agent_name", .str a.agentName),
    ("status", .str a.status), ("created_at", timeJson a.createdAt),
    ("completed_at", completedJson a.completedAt), ("events", .arr (a.events.map eventJson)),
    ("replay_digest", .str a.replayDigest), ("event_count", .num a.eventCount)]

def recordOfJson (v : Json) : Option (RunTraceArtifact Json) := do
  let runId ← member v "run_id" Json.asStr?
  let specDigest ← member v "spec_digest" Json.asStr?
  let agentName ← member v "agent_name" Json.asStr?
  let status ← member v "status" Json.asStr?
  let createdAt ← member v "created_at" timeOfJson
  let completedAt ← member v "completed_at" completedOfJson
  let events ← member v "events" eventsOfJson
  let replayDigest ← member v "replay_digest" Json.asStr?
  let eventCount ← member v "event_count" natOfJson
  return ⟨runId, specDigest, agentName, status, createdAt, completedAt, events, replayDigest, eventCount⟩

/-- The members of the records as `serde` derives them, without the layout of `to_vec_pretty`. -/
def jsonCodec : Codec Json where
  eventsJson events := (Json.arr (events.map eventJson)).render
  artifactJson a := (recordJson a).render
  parseArtifact bs := (Json.parse bs).bind recordOfJson

theorem timeOfJson_timeJson (t : Timestamp) : timeOfJson (timeJson t) = some t := by
  unfold timeJson
  split
  · rename_i h
    simp [timeOfJson, h]
  · rfl

theorem completedOfJson_completedJson (t : Option Timestamp) :
    completedOfJson (completedJson t) = some t := by
  cases t with
  | none =>
      rfl
  | some t =>
      have hnull : completedOfJson (timeJson t) = (timeOfJson (timeJson t)).map some := by
        unfold timeJson
        split <;> rfl
      rw [completedJson, hnull, timeOfJson_timeJson]
      rfl

theorem member_obj {α : Type} {ms : List (String × Json)} {k : String} {w : Json}
    {read : Json → Option α} {a : α} (hfield : (Json.obj ms).field? k = some w) (hread : read w = some a) :
    member (.obj ms) k read = some a := by
  rw [member, hfield]
  exact hread

theorem eventOfJson_eventJson (e : RunEvent Json) : eventOfJson (eventJson e) = some e := by
  unfold eventOfJson eventJson
  rw [member_obj (a := e.seq) (by rfl) (by rfl), member_obj (a := e.kind) (by rfl) (by rfl),
    member_obj (a := e.payload) (by rfl) (by rfl), member_obj (by rfl) (timeOfJson_timeJson e.timestamp)]
  rfl

theorem eventsOfJson_map (events : List (RunEvent Json)) :
    eventsOfJson (.arr (events.map eventJson)) = some events := by
  unfold eventsOfJson
  induction events with
  | nil =>
      rfl
  | cons e events ih =>
      simp [List.mapM_cons, eventOfJson_eventJson, ih]

theorem recordOfJson_recordJson (a : RunTraceArtifact Json) :
    recordOfJson (recordJson a) = some a := by
  unfold recordOfJson recordJson
  rw [member_obj (a := a.runId) (by rfl) (by rfl), member_obj (a := a.specDigest) (by rfl) (by rfl),
    member_obj (a := a.agentName) (by rfl) (by rfl), member_obj (a := a.status) (by rfl) (by rfl),
    member_obj (by rfl) (timeOfJson_timeJson a.createdAt),
    member_obj (by rfl) (completedOfJson_completedJson a.completedAt),
    member_obj (by rfl) (eventsOfJson_map a.events),
    member_obj (a := a.replayDigest) (by rfl) (by rfl), member_obj (a := a.eventCount) (by rfl) (by rfl)]
  rfl

theorem parse_artifactJson (a : RunTraceArtifact Json) :
    jsonCodec.parseArtifact (jsonCodec.artifactJson a) = some a := by
  simp only [jsonCodec, Json.parse_render, Option.bind_some]
  exact recordOfJson_recordJson a

theorem eventsJson_injective : Function.Injective jsonCodec.eventsJson := by
  intro xs ys h
  have hread := congrArg eventsOfJson (Json.render_injective h)
  rw [eventsOfJson_map, eventsOfJson_map] at hread
  exact Option.some.inj hread

def sampleEvents : List (RunEvent Json) :=
  [{ seq := 1, kind := "graph_started", payload := .obj [], timestamp := newYear }]

def sampleDigest : String :=
  "a234fd1161fcb684f427784351d7866a9482d152686e3244def329d64cc55eb3"

/-- SHA-256 where the events of the sample are hashed. -/
def sampleHash : Bytes → String :=
  tableHexDigest [(jsonCodec.eventsJson sampleEvents, sampleDigest)]

def failedRun : RunTraceArtifact Json where
  runId := "run-1"
  specDigest := "spec"
  agentName := "agent"
  status := "Failed"
  createdAt := newYear
  completedAt := some newYear
  events := sampleEvents
  replayDigest := sampleDigest
  eventCount := 1

/-- The record with the status of a run that succeeded. -/
def whitewashedRun : RunTraceArtifact Json :=
  { failedRun with status := "Completed" }

theorem sampleHash_injective : Function.Injective sampleHash :=
  tableHexDigest_injective (by decide +kernel) (by simp)

theorem hexDigests_sampleHash : HexDigests sampleHash := by
  intro bs c hc
  rcases mem_tableHexDigest hc with ⟨p, hp, hc⟩ | hc
  · have hdigest : p.2 = sampleDigest := by
      rw [List.mem_singleton.1 hp]
    rw [hdigest] at hc
    exact List.all_eq_true.1 (show sampleDigest.toList.all isLowerHex = true by decide +kernel) c hc
  · exact List.all_eq_true.1 (show ['f', '1', '0'].all isLowerHex = true by decide) c hc

theorem replayDigest_failedRun :
    failedRun.replayDigest = sampleHash (jsonCodec.eventsJson failedRun.events) := by
  simp [sampleHash, tableHexDigest, failedRun]

/-- A failed run that reads as completed. -/
theorem failedRun_whitewashed :
    ¬ ∀ (codec : Codec Json) (sha256Hex : Bytes → String), Function.Injective sha256Hex →
      HexDigests sha256Hex → Function.Injective codec.eventsJson →
      (∀ a, codec.parseArtifact (codec.artifactJson a) = some a) →
      ∀ a : RunTraceArtifact Json, a.replayDigest = sha256Hex (codec.eventsJson a.events) →
      ∀ dir files json b,
        readTraceArtifact codec sha256Hex a.runId dir (tampered codec a dir files json) = .ok b →
          b = a := by
  intro h
  have hread := (read_tampered_iff sampleHash_injective hexDigests_sampleHash eventsJson_injective
    replayDigest_failedRun "runs" ∅ (jsonCodec.artifactJson whitewashedRun)).2
      ⟨parse_artifactJson whitewashedRun, rfl, rfl⟩
  have heq := h jsonCodec sampleHash sampleHash_injective hexDigests_sampleHash eventsJson_injective
    parse_artifactJson failedRun replayDigest_failedRun _ _ _ _ hread
  exact absurd (congrArg RunTraceArtifact.status heq) (by decide)

theorem tamperEvident_failedRun :
    (∀ b, readTraceArtifact jsonCodec sampleHash failedRun.runId "runs"
        (tampered jsonCodec failedRun "runs" ∅ (jsonCodec.artifactJson whitewashedRun)) = .ok b →
          b = failedRun) ↔
      ∀ b, jsonCodec.parseArtifact (jsonCodec.artifactJson whitewashedRun) = some b →
        b.replayDigest = failedRun.replayDigest → b.events = failedRun.events →
          SameProvenance failedRun b :=
  tamperEvident_iff sampleHash_injective hexDigests_sampleHash eventsJson_injective
    replayDigest_failedRun "runs" ∅ (jsonCodec.artifactJson whitewashedRun)

end TraceArtifact
end Aivcs
