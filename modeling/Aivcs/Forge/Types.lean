import Mathlib.Data.List.Sort
import Aivcs.Lib.Digest
import Aivcs.Lib.Json

/-!
# Forge.Types — manifests, commit records and their content-derived identities

The data model of `forge-cas`: a manifest entry names a blob by its SHA-256 digest, a commit record
binds a manifest to its parents, and a commit id is the digest of the record's JSON identity.

What the crate takes from outside is collected in a `Deployment`: the digest function (`sha2` and
`hex`), the member order of a `serde_json` map, and the two environment variables the handlers read.
-/

namespace Aivcs
namespace Forge

open Aivcs.Lib

/-! ## The deployment -/

/-- The member order of `serde_json::Map`: by key, or by insertion when the `preserve_order`
feature is on. -/
inductive MapOrder
  | sorted
  | insertion
  deriving DecidableEq, Repr

def MapOrder.object (o : MapOrder) (members : List (String × Json)) : Json :=
  match o with
  | .insertion => .obj members
  | .sorted => .obj (members.insertionSort fun a b => utf8 a.1 ≤ utf8 b.1)

structure Deployment where
  /-- `hex::encode(Sha256::digest(bytes))`. -/
  sha256Hex : Bytes → String
  mapOrder : MapOrder
  /-- `FORGE_REQUIRE_CAS`. -/
  requireCas : Bool
  /-- `FORGE_MAX_SOURCE_BYTES`, a `u64`. -/
  maxSourceBytes : Nat

/-- `MAX_SOURCE_BYTES`, the cap when the variable is not set. -/
def defaultMaxSourceBytes : Nat := 512 * 1024 * 1024

/-- A deployment with no variable set, whose digest function has the given values. -/
def Deployment.ofTable (table : List (Bytes × String)) : Deployment :=
  { sha256Hex := tableDigest table
    mapOrder := .sorted
    requireCas := false
    maxSourceBytes := defaultMaxSourceBytes }

/-! ## Records -/

structure ManifestEntry where
  path : String
  digest : String
  executable : Bool
  size : UInt64
  deriving DecidableEq, Repr

structure CommitRecord where
  repo : String
  commitId : String
  treeDigest : String
  manifest : List ManifestEntry
  parents : List String
  message : String
  author : String
  deriving DecidableEq, Repr

/-- The variants of `ForgeError` that some store builds. -/
inductive ForgeError
  | backend (message : String)
  | missingBlob (path digest : String)
  deriving DecidableEq, Repr

def ForgeError.toString : ForgeError → String
  | .backend message => "forge backend error: " ++ message
  | .missingBlob path digest => "blob not in CAS for " ++ path ++ ": " ++ digest

/-- The HTTP statuses the handlers answer with. -/
inductive StatusCode
  | ok
  | created
  | badRequest
  | notFound
  | conflict
  | payloadTooLarge
  | unprocessableEntity
  | preconditionRequired
  | internalServerError
  deriving DecidableEq, Repr

/-- `status.is_success()`. -/
def StatusCode.isSuccess : StatusCode → Bool
  | .ok => true
  | .created => true
  | _ => false

/-- A status as `http::StatusCode` displays it. -/
def StatusCode.toString : StatusCode → String
  | .ok => "200 OK"
  | .created => "201 Created"
  | .badRequest => "400 Bad Request"
  | .notFound => "404 Not Found"
  | .conflict => "409 Conflict"
  | .payloadTooLarge => "413 Payload Too Large"
  | .unprocessableEntity => "422 Unprocessable Entity"
  | .preconditionRequired => "428 Precondition Required"
  | .internalServerError => "500 Internal Server Error"

structure AtomicPublishResult where
  commitId : String
  blobsStored : Nat
  branchesUpdated : Nat
  deriving DecidableEq, Repr

/-! ## JSON of manifests -/

namespace ManifestEntry

/-- The members of an entry, in the order `derive(Serialize)` writes them. -/
def members (e : ManifestEntry) : List (String × Json) :=
  [("path", .str e.path), ("digest", .str e.digest), ("executable", .bool e.executable),
    ("size", .num e.size.toNat)]

/-- `serde_json::to_value` of an entry. -/
def toValue (o : MapOrder) (e : ManifestEntry) : Json :=
  o.object e.members

/-- `derive(Deserialize)`: every field present, of its type, the size in `u64` range. -/
def ofValue? (v : Json) : Option ManifestEntry :=
  match v.field? "path", v.field? "digest", v.field? "executable", v.field? "size" with
  | some (.str path), some (.str digest), some (.bool executable), some (.num (.ofNat n)) =>
      if n < 2 ^ 64 then
        some { path := path, digest := digest, executable := executable, size := UInt64.ofNat n }
      else
        none
  | _, _, _, _ => none

end ManifestEntry

def manifestValue (o : MapOrder) (manifest : List ManifestEntry) : Json :=
  .arr (manifest.map (ManifestEntry.toValue o))

/-- `serde_json::from_value::<Vec<ManifestEntry>>`. -/
def manifestOfValue? : Json → Option (List ManifestEntry)
  | .arr vs => vs.mapM ManifestEntry.ofValue?
  | _ => none

def stringsOfValue? : Json → Option (List String)
  | .arr vs => vs.mapM Json.asStr?
  | _ => none

/-- Decoding inverts encoding on lists when it does on elements. -/
theorem mapM_map_eq_some {α β : Type} {f : β → Option α} {g : α → β} (h : ∀ a, f (g a) = some a) :
    ∀ xs : List α, (xs.map g).mapM f = some xs
  | [] => rfl
  | x :: xs => by
      rw [List.map_cons, List.mapM_cons, h x, mapM_map_eq_some h xs]
      rfl

theorem ManifestEntry.ofValue?_toValue (o : MapOrder) (e : ManifestEntry) :
    ManifestEntry.ofValue? (e.toValue o) = some e := by
  have hpath : (e.toValue o).field? "path" = some (.str e.path) := by
    cases o <;> rfl
  have hdigest : (e.toValue o).field? "digest" = some (.str e.digest) := by
    cases o <;> rfl
  have hexec : (e.toValue o).field? "executable" = some (.bool e.executable) := by
    cases o <;> rfl
  have hnum : (e.toValue o).field? "size" = some (.num (.ofNat e.size.toNat)) := by
    cases o <;> rfl
  simpa [ManifestEntry.ofValue?, hpath, hdigest, hexec, hnum] using e.size.toNat_lt

theorem manifestOfValue?_manifestValue (o : MapOrder) (manifest : List ManifestEntry) :
    manifestOfValue? (manifestValue o manifest) = some manifest :=
  mapM_map_eq_some (ManifestEntry.ofValue?_toValue o) manifest

theorem stringsOfValue?_strings (xs : List String) :
    stringsOfValue? (.arr (xs.map Json.str)) = some xs :=
  mapM_map_eq_some (f := Json.asStr?) (g := Json.str) (fun _ => rfl) xs

theorem manifestValue_injective (o : MapOrder) : Function.Injective (manifestValue o) := by
  intro m m' h
  have hm := manifestOfValue?_manifestValue o m
  rw [h, manifestOfValue?_manifestValue] at hm
  exact (Option.some.inj hm).symm

/-! ## Identities -/

/-- The entries of a manifest in path order; Rust compares texts by their bytes. -/
def sortByPath (manifest : List ManifestEntry) : List ManifestEntry :=
  manifest.insertionSort fun a b => utf8 a.path ≤ utf8 b.path

/-- `serde_json` of the tuple `(path, digest, executable, size)`. -/
def ManifestEntry.tuple (e : ManifestEntry) : Json :=
  .arr [.str e.path, .str e.digest, .bool e.executable, .num e.size.toNat]

/-- `tree_digest`. -/
def treeDigest (D : Deployment) (manifest : List ManifestEntry) : String :=
  D.sha256Hex (Json.render (.arr ((sortByPath manifest).map ManifestEntry.tuple)))

/-- The JSON identity `json!({ "repo": .., "tree_digest": .., .. })` the handlers hash. -/
def identity (D : Deployment) (repo treeDigest : String) (manifest : List ManifestEntry)
    (parents : List String) (message author : String) : Json :=
  D.mapOrder.object
    [("repo", .str repo), ("tree_digest", .str treeDigest),
      ("manifest", manifestValue D.mapOrder manifest),
      ("parents", .arr (parents.map Json.str)), ("message", .str message), ("author", .str author)]

/-- `sha256_hex(&serde_json::to_vec(&identity).unwrap_or_default())`. -/
def identityDigest (D : Deployment) (identity : Json) : String :=
  D.sha256Hex identity.render

/-- The identity of a record, whatever id it carries. -/
def CommitRecord.identity (D : Deployment) (r : CommitRecord) : Json :=
  Forge.identity D r.repo r.treeDigest r.manifest r.parents r.message r.author

/-- The id a record would get if it were derived from the record's content. -/
def CommitRecord.contentId (D : Deployment) (r : CommitRecord) : String :=
  identityDigest D (r.identity D)

/-- Every field of an identity can be read back from it. -/
theorem identity_fields (D : Deployment) (repo treeDigest : String) (manifest : List ManifestEntry)
    (parents : List String) (message author : String) :
    let v := identity D repo treeDigest manifest parents message author
    v.field? "repo" = some (.str repo) ∧
      v.field? "tree_digest" = some (.str treeDigest) ∧
      v.field? "manifest" = some (manifestValue D.mapOrder manifest) ∧
      v.field? "parents" = some (.arr (parents.map Json.str)) ∧
      v.field? "message" = some (.str message) ∧
      v.field? "author" = some (.str author) := by
  unfold identity
  cases D.mapOrder with
  | sorted =>
      exact ⟨rfl, rfl, rfl, rfl, rfl, rfl⟩
  | insertion =>
      exact ⟨rfl, rfl, rfl, rfl, rfl, rfl⟩

/-- Two records with one identity agree on everything but, possibly, the id they carry. -/
theorem CommitRecord.eq_of_identity_eq {D : Deployment} {r r' : CommitRecord}
    (hid : r.commitId = r'.commitId) (h : r.identity D = r'.identity D) : r = r' := by
  have hr := identity_fields D r.repo r.treeDigest r.manifest r.parents r.message r.author
  have hr' := identity_fields D r'.repo r'.treeDigest r'.manifest r'.parents r'.message r'.author
  unfold CommitRecord.identity at h
  rw [h] at hr
  rcases hr with ⟨hrepo, htree, hman, hpar, hmsg, hauth⟩
  rcases hr' with ⟨hrepo', htree', hman', hpar', hmsg', hauth'⟩
  have e₁ : r.repo = r'.repo := by simpa [hrepo] using hrepo'
  have e₂ : r.treeDigest = r'.treeDigest := by simpa [htree] using htree'
  -- The lists are read back from their JSON; the other fields are texts of the identity.
  have e₃ : r.manifest = r'.manifest := by
    have hval : manifestValue D.mapOrder r.manifest = manifestValue D.mapOrder r'.manifest := by
      simpa [hman] using hman'
    exact manifestValue_injective D.mapOrder hval
  have e₄ : r.parents = r'.parents := by
    have hval : (.arr (r.parents.map Json.str) : Json) = .arr (r'.parents.map Json.str) := by
      simpa [hpar] using hpar'
    have hdec := stringsOfValue?_strings r.parents
    rw [hval, stringsOfValue?_strings] at hdec
    exact (Option.some.inj hdec).symm
  have e₅ : r.message = r'.message := by simpa [hmsg] using hmsg'
  have e₆ : r.author = r'.author := by simpa [hauth] using hauth'
  cases r
  cases r'
  simp_all

/-- The record is bound to its content: both digests it carries are the ones its content gives. -/
def CommitRecord.Bound (D : Deployment) (r : CommitRecord) : Prop :=
  r.treeDigest = Forge.treeDigest D r.manifest ∧ r.commitId = r.contentId D

/-- With a collision-free digest, a content-derived id determines the record. -/
theorem CommitRecord.eq_of_contentId {D : Deployment} (hsha : Function.Injective D.sha256Hex)
    {r r' : CommitRecord} (hid : r.commitId = r'.commitId)
    (h : r.contentId D = r'.contentId D) : r = r' :=
  CommitRecord.eq_of_identity_eq hid (Json.render_injective (hsha h))

end Forge
end Aivcs
