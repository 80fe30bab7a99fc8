import Aivcs.Hitl.Engine
import Aivcs.Lib.Digest
import Aivcs.Lib.Json
import Aivcs.Lib.Map

/-!
# Hitl.Artifact — the audit record of a decision

`HitlArtifact::finalize` puts a digest into the record, `verify_integrity` compares it with the digest of
the record as it is.  What is digested is not the record but six members: of the votes and of the
interventions only their numbers, of the checkpoint neither label, tier nor explanation.

The hash, the text of a timestamp and the JSON of a whole artifact are parameters.
-/

namespace Aivcs
namespace Hitl

open Aivcs.Lib Aivcs.State

/-! ## The record -/

structure ExplainabilitySummary where
  actionDescription : String
  changesSummary : String
  flagReason : String
  deriving DecidableEq

/-- A checkpoint with all its fields. -/
structure CheckpointRecord extends ApprovalCheckpoint where
  label : String
  runId : String
  explanation : ExplainabilitySummary
  deriving DecidableEq

/-- A vote with all its fields. -/
structure VoteRecord extends ApprovalVote where
  votedAt : Timestamp
  deriving DecidableEq

structure Intervention where
  interventionId : String
  runId : String
  checkpointId : Option String
  operator : String
  action : InterventionAction
  initiatedAt : Timestamp
  resolvedAt : Option Timestamp
  notes : Option String
  deriving DecidableEq

structure HitlArtifact where
  checkpoint : CheckpointRecord
  votes : List VoteRecord
  interventions : List Intervention
  finalizedAt : Timestamp
  contentDigest : String
  deriving DecidableEq

/-! ## The digest -/

def CheckpointStatus.toJson : CheckpointStatus → Json
  | .pending => .str "pending"
  | .approved => .str "approved"
  | .rejected reason => .obj [("rejected", .obj [("reason", .str reason)])]
  | .expired => .str "expired"
  | .paused => .str "paused"

theorem CheckpointStatus.toJson_injective : Function.Injective CheckpointStatus.toJson := by
  intro a b h
  cases a <;> cases b <;> simp_all [CheckpointStatus.toJson]

namespace HitlArtifact

variable (hashHex : Bytes → String) (rfc3339 : Timestamp → String)

/-- What the digest is computed over. -/
def payload (artifact : HitlArtifact) : Json :=
  .obj [("checkpoint_id", .str artifact.checkpoint.checkpointId),
    ("run_id", .str artifact.checkpoint.runId),
    ("status", artifact.checkpoint.status.toJson),
    ("votes_count", .num artifact.votes.length),
    ("interventions_count", .num artifact.interventions.length),
    ("finalized_at", .str (rfc3339 artifact.finalizedAt))]

def computeDigest (artifact : HitlArtifact) : String :=
  hashHex (artifact.payload rfc3339).render

def finalize (checkpoint : CheckpointRecord) (votes : List VoteRecord)
    (interventions : List Intervention) (now : Timestamp) : HitlArtifact :=
  let artifact : HitlArtifact := ⟨checkpoint, votes, interventions, now, ""⟩
  { artifact with contentDigest := artifact.computeDigest hashHex rfc3339 }

def verifyIntegrity (artifact : HitlArtifact) : Bool :=
  artifact.contentDigest = artifact.computeDigest hashHex rfc3339

end HitlArtifact

/-! ## Files -/

/-- What `serde_json` writes and reads. -/
structure ArtifactCodec where
  toText : HitlArtifact → String
  ofText : String → Option HitlArtifact

inductive ArtifactError where
  | notFound
  | invalidUtf8
  | invalidData
  deriving DecidableEq

def writeHitlArtifact (codec : ArtifactCodec) (artifact : HitlArtifact) (path : String)
    (files : Map String Bytes) : Map String Bytes :=
  files.insert path (utf8 (codec.toText artifact))

def readHitlArtifact (codec : ArtifactCodec) (path : String) (files : Map String Bytes) :
    Except ArtifactError HitlArtifact :=
  match files path with
  | none => .error .notFound
  | some data =>
      match ofUtf8? data with
      | none => .error .invalidUtf8
      | some text =>
          match codec.ofText text with
          | none => .error .invalidData
          | some artifact => .ok artifact

/-! ## What the digest covers -/

variable {hashHex : Bytes → String} {rfc3339 : Timestamp → String}

/-- The members that are digested. -/
def SameDigested (rfc3339 : Timestamp → String) (a b : HitlArtifact) : Prop :=
  b.checkpoint.checkpointId = a.checkpoint.checkpointId ∧ b.checkpoint.runId = a.checkpoint.runId ∧
    b.checkpoint.status = a.checkpoint.status ∧ b.votes.length = a.votes.length ∧
      b.interventions.length = a.interventions.length ∧ rfc3339 b.finalizedAt = rfc3339 a.finalizedAt

/-- The fields of which the digest knows nothing, or not all. -/
def SameUndigested (a b : HitlArtifact) : Prop :=
  b.checkpoint.label = a.checkpoint.label ∧ b.checkpoint.riskTier = a.checkpoint.riskTier ∧
    b.checkpoint.createdAt = a.checkpoint.createdAt ∧ b.checkpoint.expiresAt = a.checkpoint.expiresAt ∧
      b.checkpoint.explanation = a.checkpoint.explanation ∧ b.votes = a.votes ∧
        b.interventions = a.interventions ∧ b.finalizedAt = a.finalizedAt

theorem payload_eq_iff {a b : HitlArtifact} :
    b.payload rfc3339 = a.payload rfc3339 ↔ SameDigested rfc3339 a b := by
  simp [HitlArtifact.payload, SameDigested, CheckpointStatus.toJson_injective.eq_iff]

theorem computeDigest_eq_iff (hhash : Function.Injective hashHex) {a b : HitlArtifact} :
    b.computeDigest hashHex rfc3339 = a.computeDigest hashHex rfc3339 ↔
      SameDigested rfc3339 a b := by
  rw [← payload_eq_iff]
  exact ⟨fun h => Json.render_injective (hhash h), fun h => congrArg (fun v : Json => hashHex v.render) h⟩

variable (checkpoint : CheckpointRecord) (votes : List VoteRecord) (interventions : List Intervention)
  (now : Timestamp)

/-- The digest does not depend on the field that holds it. -/
theorem contentDigest_finalize :
    (HitlArtifact.finalize hashHex rfc3339 checkpoint votes interventions now).contentDigest =
      (HitlArtifact.finalize hashHex rfc3339 checkpoint votes interventions now).computeDigest
        hashHex rfc3339 := rfl

theorem verifyIntegrity_finalize :
    (HitlArtifact.finalize hashHex rfc3339 checkpoint votes interventions now).verifyIntegrity
      hashHex rfc3339 = true := by
  simp only [HitlArtifact.verifyIntegrity, contentDigest_finalize, decide_true]

/-- A record under the digest of a finalized one is verified exactly when the digested members agree. -/
theorem verifyIntegrity_iff (hhash : Function.Injective hashHex) {b : HitlArtifact}
    (hdigest : b.contentDigest =
      (HitlArtifact.finalize hashHex rfc3339 checkpoint votes interventions now).contentDigest) :
    b.verifyIntegrity hashHex rfc3339 = true ↔
      SameDigested rfc3339 (HitlArtifact.finalize hashHex rfc3339 checkpoint votes interventions now) b := by
  rw [← computeDigest_eq_iff hhash, ← contentDigest_finalize, ← hdigest,
    HitlArtifact.verifyIntegrity, decide_eq_true_eq, eq_comm]

theorem eq_of_same {a b : HitlArtifact} (hdigested : SameDigested rfc3339 a b)
    (hrest : SameUndigested a b) (hdigest : b.contentDigest = a.contentDigest) : b = a := by
  rcases hdigested with ⟨hid, hrun, hstatus, -, -, -⟩
  rcases hrest with ⟨hlabel, htier, hcreated, hexpires, hexplanation, hvotes, hinterventions, htime⟩
  rcases a with ⟨⟨⟨id, tier, created, expires, status⟩, label, run, explanation⟩, votes, ivs, time, digest⟩
  rcases b with ⟨⟨⟨id', tier', created', expires', status'⟩, label', run', explanation'⟩, votes', ivs',
    time', digest'⟩
  dsimp only at *
  subst hid hrun hstatus hlabel htier hcreated hexpires hexplanation hvotes hinterventions htime hdigest
  rfl

theorem read_write (codec : ArtifactCodec) {artifact : HitlArtifact}
    (hdecode : codec.ofText (codec.toText artifact) = some artifact) (path : String)
    (files : Map String Bytes) :
    readHitlArtifact codec path (writeHitlArtifact codec artifact path files) = .ok artifact := by
  simp only [readHitlArtifact, writeHitlArtifact, Map.insert_self, ofUtf8?_utf8, hdecode]

/-- A record that is changed under its digest is found out exactly when a digested member is changed, or
nothing is; a record that is written and read is verified. -/
theorem artifact_tamperEvident_iff (hhash : Function.Injective hashHex) (codec : ArtifactCodec)
    (hdecode : codec.ofText (codec.toText
        (HitlArtifact.finalize hashHex rfc3339 checkpoint votes interventions now)) =
      some (HitlArtifact.finalize hashHex rfc3339 checkpoint votes interventions now))
    (path : String) (files : Map String Bytes) (b : HitlArtifact)
    (hdigest : b.contentDigest =
      (HitlArtifact.finalize hashHex rfc3339 checkpoint votes interventions now).contentDigest) :
    ((b.verifyIntegrity hashHex rfc3339 = true →
          b = HitlArtifact.finalize hashHex rfc3339 checkpoint votes interventions now) ↔
        (¬ SameDigested rfc3339
            (HitlArtifact.finalize hashHex rfc3339 checkpoint votes interventions now) b ∨
          SameUndigested
            (HitlArtifact.finalize hashHex rfc3339 checkpoint votes interventions now) b)) ∧
      ∃ artifact, readHitlArtifact codec path (writeHitlArtifact codec
            (HitlArtifact.finalize hashHex rfc3339 checkpoint votes interventions now) path files)
          = .ok artifact ∧ artifact.verifyIntegrity hashHex rfc3339 = true := by
  refine ⟨?_, _, read_write codec hdecode path files, verifyIntegrity_finalize _ _ _ _⟩
  rw [verifyIntegrity_iff checkpoint votes interventions now hhash hdigest, ← imp_iff_not_or]
  constructor
  · intro h hsame
    rw [h hsame]
    exact ⟨rfl, rfl, rfl, rfl, rfl, rfl, rfl, rfl⟩
  · intro h hsame
    exact eq_of_same hsame (h hsame) hdigest

/-! ## A label that is changed -/

def deployCheckpoint : CheckpointRecord where
  checkpointId := "cp-1"
  riskTier := .high
  createdAt := 0
  expiresAt := none
  status := .approved
  label := "deploy-staging"
  runId := "67e55044-10b1-426f-9247-bb680e5fe0c8"
  explanation := ⟨"deploy", "v2 to v3", "production"⟩

def approval : VoteRecord where
  voter := "alice"
  checkpointId := "cp-1"
  decision := .approve
  comment := none
  votedAt := 0

/-- The text of 2025-01-01T00:00:00Z. -/
def newYearText (_ : Timestamp) : String :=
  "2025-01-01T00:00:00+00:00"

/-- The hash of the payload of the sample. -/
def sampleHashHex : Bytes → String :=
  tableDigest [(utf8 ("\x7b\"checkpoint_id\":\"cp-1\",\"run_id\":\"67e55044-10b1-426f-9247-bb680e5fe0c8\"" ++
    ",\"status\":\"approved\",\"votes_count\":1,\"interventions_count\":0" ++
    ",\"finalized_at\":\"2025-01-01T00:00:00+00:00\"\x7d"), "eb4b74c5f308b4c7")]

theorem sampleHashHex_injective : Function.Injective sampleHashHex :=
  tableDigest_injective (by decide +kernel) (by simp)

/-- An approved deployment. -/
def approvedDeploy : HitlArtifact :=
  .finalize sampleHashHex newYearText deployCheckpoint [approval] [] 1735689600000000000

/-- The record with another label, tier and voter. -/
def forgedDeploy : HitlArtifact :=
  { approvedDeploy with
    checkpoint := { deployCheckpoint with label := "deploy-prod", riskTier := .low }
    votes := [{ approval with voter := "mallory" }] }

/-- The forged record is verified. -/
theorem forgedDeploy_verified :
    ¬ ∀ b : HitlArtifact, b.contentDigest = approvedDeploy.contentDigest →
      b.verifyIntegrity sampleHashHex newYearText = true → b = approvedDeploy := by
  intro h
  have hdigest : forgedDeploy.contentDigest = approvedDeploy.contentDigest := rfl
  have hverified := (verifyIntegrity_iff deployCheckpoint [approval] [] 1735689600000000000
    sampleHashHex_injective hdigest).2 ⟨rfl, rfl, rfl, rfl, rfl, rfl⟩
  have heq := h forgedDeploy hdigest hverified
  exact absurd (congrArg (fun a : HitlArtifact => a.checkpoint.label) heq) (by decide)

/-- The JSON of the approved deployment. -/
def approvedText : String :=
    "\x7b\n" ++
    "  \"checkpoint\": \x7b\n" ++
    "    \"checkpoint_id\": \"cp-1\",\n" ++
    "    \"label\": \"deploy-staging\",\n" ++
    "    \"run_id\": \"67e55044-10b1-426f-9247-bb680e5fe0c8\",\n" ++
    "    \"risk_tier\": \"high\",\n" ++
    "    \"created_at\": \"1970-01-01T00:00:00Z\",\n" ++
    "    \"expires_at\": null,\n" ++
    "    \"status\": \"approved\",\n" ++
    "    \"explanation\": \x7b\n" ++
    "      \"action_description\": \"deploy\",\n" ++
    "      \"changes_summary\": \"v2 to v3\",\n" ++
    "      \"flag_reason\": \"production\"\n" ++
    "    \x7d\n" ++
    "  \x7d,\n" ++
    "  \"votes\": [\n" ++
    "    \x7b\n" ++
    "      \"voter\": \"alice\",\n" ++
    "      \"checkpoint_id\": \"cp-1\",\n" ++
    "      \"decision\": \"approve\",\n" ++
    "      \"voted_at\": \"1970-01-01T00:00:00Z\",\n" ++
    "      \"comment\": null\n" ++
    "    \x7d\n" ++
    "  ],\n" ++
    "  \"interventions\": [],\n" ++
    "  \"finalized_at\": \"2025-01-01T00:00:00Z\",\n" ++
    "  \"content_digest\": \"eb4b74c5f308b4c7\"\n" ++
    "\x7d"

/-- What is written for it, and read. -/
def sampleCodec : ArtifactCodec where
  toText artifact := if artifact = approvedDeploy then approvedText else ""
  ofText text := if text = approvedText then some approvedDeploy else none

theorem artifact_tamperEvident_forgedDeploy :
    ((forgedDeploy.verifyIntegrity sampleHashHex newYearText = true → forgedDeploy = approvedDeploy) ↔
        (¬ SameDigested newYearText approvedDeploy forgedDeploy ∨
          SameUndigested approvedDeploy forgedDeploy)) ∧
      ∃ artifact, readHitlArtifact sampleCodec "hitl.json"
          (writeHitlArtifact sampleCodec approvedDeploy "hitl.json" ∅) = .ok artifact ∧
        artifact.verifyIntegrity sampleHashHex newYearText = true := by
  have hdecode : sampleCodec.ofText (sampleCodec.toText approvedDeploy) = some approvedDeploy := by
    simp [sampleCodec]
  exact artifact_tamperEvident_iff deployCheckpoint [approval] [] 1735689600000000000
    sampleHashHex_injective sampleCodec hdecode "hitl.json" ∅ forgedDeploy rfl

end Hitl
end Aivcs
