import Aivcs.Lib.Digest
import Aivcs.Lib.Map
import Aivcs.Lib.Proc
import Aivcs.CargoRegistry.Index

/-!
# CargoRegistry.Routes — the object store and the publish route over it

`StoreOp` is the part of the `Store` trait the route uses; a handler is a program over it, and one
call of the trait is one atomic step.  `exec` is a store that works (`MemoryStore`, or S3 on a good
day), `unavailable` the answer of one that does not.

`publish` is cut at its store calls: `uploadArtifact`, `appendRecord` and `writeIndex` are what is
left of it after the first, the second and the third.

Not modelled: the log lines, and the failure of `serde_json::to_vec`, which a record cannot cause.
-/

namespace Aivcs
namespace CargoRegistry

open Aivcs.Lib

/-! ## The object store -/

inductive Bucket
  | index
  | crates
  deriving DecidableEq

inductive StoreError
  | notFound
  | unavailable (message : String)
  deriving DecidableEq

inductive StoreOp
  | get (bucket : Bucket) (key : String)
  | put (bucket : Bucket) (key : String) (body : Bytes)
  | keyExists (bucket : Bucket) (key : String)

@[reducible] def StoreOp.Ans : StoreOp → Type
  | .get _ _ => Except StoreError Bytes
  | .put _ _ _ => Except StoreError Unit
  | .keyExists _ _ => Except StoreError Bool

abbrev StoreProc (α : Type) : Type := Proc StoreOp StoreOp.Ans α

namespace Store

def get (bucket : Bucket) (key : String) : StoreProc (Except StoreError Bytes) :=
  Proc.perform (StoreOp.get bucket key)

def put (bucket : Bucket) (key : String) (body : Bytes) : StoreProc (Except StoreError Unit) :=
  Proc.perform (StoreOp.put bucket key body)

def keyExists (bucket : Bucket) (key : String) : StoreProc (Except StoreError Bool) :=
  Proc.perform (StoreOp.keyExists bucket key)

end Store

/-- The objects of both buckets. -/
abbrev Objects := Map (Bucket × String) Bytes

def exec : (op : StoreOp) → Objects → op.Ans × Objects
  | .get bucket key, s =>
      match s (bucket, key) with
      | some body => (.ok body, s)
      | none => (.error .notFound, s)
  | .put bucket key body, s => (.ok (), s.insert (bucket, key) body)
  | .keyExists bucket key, s => (.ok (s (bucket, key)).isSome, s)

def unavailable : (op : StoreOp) → op.Ans
  | .get _ _ => .error (.unavailable "simulated")
  | .put _ _ _ => .error (.unavailable "simulated")
  | .keyExists _ _ => .error (.unavailable "simulated")

/-! ## Requests and answers -/

/-- The state of the application, with the functions it takes from other crates. -/
structure Registry where
  /-- `hex::encode(Sha256::digest(..))` -/
  sha256Hex : Bytes → String
  /-- `serde_json::from_slice::<PublishMeta>` -/
  decodeMeta : Bytes → Option PublishMeta
  /-- the standard base64 decoder -/
  decodeBase64 : List Char → Option Bytes
  token : Option String
  baseUrl : String
  requireHttps : Bool

structure PublishRequest where
  /-- `x-forwarded-proto`, if it is a text -/
  forwardedProto : Option String
  /-- `authorization`, if it is a text -/
  authorization : Option String
  pathAndQuery : Option String
  body : Bytes

inductive StatusCode
  | ok
  | movedPermanently
  | badRequest
  | unauthorized
  | conflict
  | badGateway
  deriving DecidableEq

structure Response where
  status : StatusCode
  location : Option String
  body : String
  deriving DecidableEq

/-- How a handler ends: with a response, or the panic of a slice out of place. -/
inductive Answer
  | response (r : Response)
  | panicked
  deriving DecidableEq

def reply (status : StatusCode) (body : String) : Response :=
  { status := status, location := none, body := body }

/-! ## Guards -/

/-- `constant_time_eq`. -/
def constantTimeEq (a b : String) : Bool :=
  if (utf8 a).length ≠ (utf8 b).length then
    false
  else
    ((utf8 a).zip (utf8 b)).foldl (fun acc p => acc ||| (p.1 ^^^ p.2)) 0 = 0

/-- What follows a scheme in an authorization header. -/
def credentials? (scheme header : String) : Option (List Char) :=
  if scheme.toList.isPrefixOf header.toList then some (header.toList.drop scheme.toList.length)
  else none

/-- Login and password of a decoded Basic credential. -/
def splitLogin (decoded : String) : String × String :=
  match decoded.toList.findIdx? (fun c => c = ':') with
  | some i => (String.ofList (decoded.toList.take i), String.ofList (decoded.toList.drop (i + 1)))
  | none => (decoded, "")

/-- `authorized`: raw, Bearer or Basic. -/
def authorized (R : Registry) (header : Option String) (token : String) : Bool :=
  match header with
  | none => false
  | some auth =>
      auth = token ||
        (match credentials? "Bearer " auth with
          | some rest => constantTimeEq (String.ofList rest) token
          | none => false) ||
        match ((credentials? "Basic " auth).bind R.decodeBase64).bind ofUtf8? with
        | some decoded =>
            constantTimeEq (splitLogin decoded).2 token || constantTimeEq (splitLogin decoded).1 token
        | none => false

/-- `https_redirect`. -/
def httpsRedirect (R : Registry) (req : PublishRequest) : Option Response :=
  if !R.requireHttps || asciiLower (req.forwardedProto.getD "https") = "https" then
    none
  else
    some { status := .movedPermanently
           location := some (String.ofList (trimEnd (fun c => c = '/') R.baseUrl.toList) ++
             req.pathAndQuery.getD "/")
           body := "" }

/-- `auth_reject`. -/
def authReject (R : Registry) (req : PublishRequest) : Option Response :=
  match R.token with
  | none => none
  | some token =>
      if authorized R req.authorization token then none
      else some (reply .unauthorized "Unauthorized")

/-- `guard`: transport first, then credentials. -/
def guard (R : Registry) (req : PublishRequest) : Option Response :=
  (httpsRedirect R req).orElse fun _ => authReject R req

/-! ## The payload -/

/-- `json_len`: a little-endian `u32` in front. -/
def jsonLen : Bytes → Option Nat
  | a :: b :: c :: d :: _ =>
      some (a.toNat + 256 * b.toNat + 65536 * c.toNat + 16777216 * d.toNat)
  | _ => none

/-- `parse_publish`: length, metadata, length, artifact. -/
def parsePublish (R : Registry) (body : Bytes) : Option (PublishMeta × Bytes) := do
  let jlen ← jsonLen body
  let jsonEnd := 4 + jlen
  if body.length < jsonEnd + 4 then
    none
  else
    let m ← R.decodeMeta ((body.drop 4).take jlen)
    let clen ← jsonLen (body.drop jsonEnd)
    -- Bytes after the artifact are ignored.
    let crateStart := jsonEnd + 4
    if body.length < crateStart + clen then
      none
    else
      return (m, (body.drop crateStart).take clen)

/-! ## `publish` -/

/-- `storage_error`. -/
def storageError : Answer :=
  .response (reply .badGateway "object storage error")

def published : Answer :=
  .response (reply .ok "\x7b\"warnings\":\x7b\x7d\x7d")

def alreadyPublished (m : PublishMeta) : Answer :=
  .response (reply .conflict (m.name ++ " " ++ m.vers ++ " already published"))

/-- The record of a publish. -/
def recordLine (R : Registry) (m : PublishMeta) (crateBytes : Bytes) : Bytes :=
  entryLine (indexEntry R.sha256Hex m crateBytes (some R.baseUrl))

/-- Write the object that was read, with the record at its end. -/
def writeIndex (R : Registry) (m : PublishMeta) (crateBytes : Bytes) (idxKey : String)
    (existing : Bytes) : StoreProc Answer := do
  match ← Store.put .index idxKey (appendLine existing (recordLine R m crateBytes)) with
  | .error _ => return storageError
  | .ok () => return published

/-- Read the index object; none is an empty one. -/
def readIndex (R : Registry) (m : PublishMeta) (crateBytes : Bytes) (idxKey : String) :
    StoreProc Answer := do
  match ← Store.get .index idxKey with
  | .ok existing => writeIndex R m crateBytes idxKey existing
  | .error .notFound => writeIndex R m crateBytes idxKey []
  | .error (.unavailable _) => return storageError

/-- Append the index record. -/
def appendRecord (R : Registry) (m : PublishMeta) (crateBytes : Bytes) : StoreProc Answer :=
  match indexKey m.name with
  | none => return .panicked
  | some idxKey => readIndex R m crateBytes idxKey

/-- Store the artifact. -/
def uploadArtifact (R : Registry) (m : PublishMeta) (crateBytes : Bytes) : StoreProc Answer := do
  match ← Store.put .crates (crateKey m.name m.vers) crateBytes with
  | .error _ => return storageError
  | .ok () => appendRecord R m crateBytes

/-- A publish whose payload has been read: published artifacts are immutable. -/
def publishCrate (R : Registry) (m : PublishMeta) (crateBytes : Bytes) : StoreProc Answer := do
  match ← Store.keyExists .crates (crateKey m.name m.vers) with
  | .ok true => return alreadyPublished m
  | .ok false => uploadArtifact R m crateBytes
  | .error _ => return storageError

/-- `publish`. -/
def publish (R : Registry) (req : PublishRequest) : StoreProc Answer :=
  match guard R req with
  | some r => return .response r
  | none =>
      match parsePublish R req.body with
      | none => return .response (reply .badRequest "malformed publish payload")
      | some (m, crateBytes) => publishCrate R m crateBytes

/-- What a request asks to publish, if it gets past the guards and its payload can be read. -/
def payload? (R : Registry) (req : PublishRequest) : Option (PublishMeta × Bytes) :=
  match guard R req with
  | some _ => none
  | none => parsePublish R req.body

/-! ## A small registry -/

def le32 (n : Nat) : Bytes :=
  [UInt8.ofNat n, UInt8.ofNat (n / 256), UInt8.ofNat (n / 65536), UInt8.ofNat (n / 16777216)]

/-- The body of a publish request. -/
def publishBody (json crateBytes : Bytes) : Bytes :=
  le32 json.length ++ json ++ le32 crateBytes.length ++ crateBytes

/-- The metadata of a version of a crate without dependencies, and the document for it. -/
def demoMeta (vers : String) : PublishMeta :=
  { name := "demo", vers := vers, deps := [], features := .empty, links := none
    rustVersion := none }

def demoJson (vers : String) : Bytes :=
  utf8 ("\x7b\"name\":\"demo\",\"vers\":\"" ++ vers ++ "\"\x7d")

/-- An open registry with the SHA-256 digests of two small artifacts, which reads the metadata of
two versions. -/
def demoRegistry : Registry :=
  { sha256Hex := tableDigest
      [(utf8 "x", "2d711642b726b04401627ca9fbac32f5c8530fb1903cc4db02258717921a4881"),
        (utf8 "y", "a1fce4363854ff888cff4b8e7875d600c2682390412a8cf79b37d0b11148b0fa")]
    decodeMeta := fun bs => (["0.1.0", "0.2.0"].find? fun vers => bs = demoJson vers).map demoMeta
    decodeBase64 := fun _ => none
    token := none
    baseUrl := "https://registry.aivcs.io"
    requireHttps := false }

def demoRequest (vers artifact : String) : PublishRequest :=
  { forwardedProto := none, authorization := none, pathAndQuery := some "/api/v1/crates/new"
    body := publishBody (demoJson vers) (utf8 artifact) }

example : payload? demoRegistry (demoRequest "0.1.0" "x") = some (demoMeta "0.1.0", utf8 "x") := by
  decide +kernel

end CargoRegistry
end Aivcs
