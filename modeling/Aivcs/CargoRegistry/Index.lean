import Aivcs.Lib.Json
import Aivcs.Lib.Ndjson
import Aivcs.Lib.Text

/-!
# CargoRegistry.Index — index records, index paths and the text rules behind them

`indexEntry` turns the metadata of a publish into the record cargo reads, `IndexEntry.toJson` is the
document `serde_json` writes for it and `indexKey` is the object the record goes to.

The second half reads records back: `recordOf?` is what a line of an index object says about name,
version and checksum, and `recordOf?_entryLine` that a written record says what it was written for.
-/

namespace Aivcs
namespace CargoRegistry

open Aivcs.Lib

/-! ## The two schemas -/

/-- A `BTreeMap` as its entries in key order. -/
structure BTreeMap (κ α : Type) [LT κ] where
  entries : List (κ × α)
  sorted : entries.Pairwise fun a b => a.1 < b.1
  deriving DecidableEq

def BTreeMap.empty {κ α : Type} [LT κ] : BTreeMap κ α :=
  { entries := [], sorted := List.Pairwise.nil }

/-- A dependency in the body of a publish. -/
structure PublishDep where
  name : String
  versionReq : String
  features : List String
  optional : Bool
  defaultFeatures : Bool
  target : Option String
  kind : Option String
  registry : Option String
  explicitNameInToml : Option String
  deriving DecidableEq

/-- The publish payload. -/
structure PublishMeta where
  name : String
  vers : String
  deps : List PublishDep
  features : BTreeMap String (List String)
  links : Option String
  rustVersion : Option String
  deriving DecidableEq

structure IndexDep where
  name : String
  req : String
  features : List String
  optional : Bool
  defaultFeatures : Bool
  target : Option String
  kind : String
  registry : Option String
  package : Option String

structure IndexEntry where
  name : String
  vers : String
  deps : List IndexDep
  cksum : String
  features : BTreeMap String (List String)
  yanked : Bool
  links : Option String
  v : Option UInt32
  rustVersion : Option String

/-! ## Building a record -/

def cratesIoIndex : String := "https://github.com/rust-lang/crates.io-index"

/-- One comma-separated part of a requirement: a bare version gets a caret. -/
def normalizePart (part : List Char) : List Char :=
  let t := trimBoth isWhitespace part
  match t.head? with
  | some c => if c.isDigit then '^' :: t else t
  | none => t

/-- `normalize_req`. -/
def normalizeReq (req : String) : String :=
  String.ofList ([',', ' '].intercalate ((req.toList.splitOn ',').map normalizePart))

/-- The part of a registry URL that matters. -/
def stripRegistry (url : String) : List Char :=
  trimEnd (fun c => c = '/') (dropRepeated "sparse+".toList url.toList.length url.toList)

/-- `same_registry`. -/
def sameRegistry (dep own : String) : Bool :=
  stripRegistry dep = stripRegistry own

/-- The index form of a dependency: `null` spells this registry, so crates.io is spelled out. -/
def indexDep (ownRegistry : Option String) (d : PublishDep) : IndexDep :=
  { name := d.explicitNameInToml.getD d.name
    req := normalizeReq d.versionReq
    features := d.features
    optional := d.optional
    defaultFeatures := d.defaultFeatures
    target := d.target
    kind := d.kind.getD "normal"
    registry :=
      match d.registry with
      | none => some cratesIoIndex
      | some url =>
          match ownRegistry with
          | some own => if sameRegistry url own then none else some url
          | none => some url
    -- A renamed dependency: the name in the manifest first, the package it stands for second.
    package := d.explicitNameInToml.map fun _ => d.name }

/-- `index_entry`, for a digest function. -/
def indexEntry (sha256Hex : Bytes → String) (m : PublishMeta) (crateBytes : Bytes)
    (ownRegistry : Option String) : IndexEntry :=
  { name := m.name
    vers := m.vers
    deps := m.deps.map (indexDep ownRegistry)
    cksum := sha256Hex crateBytes
    features := m.features
    yanked := false
    links := m.links
    v := none
    rustVersion := m.rustVersion }

/-! ## Writing a record -/

def optionalStr : Option String → Json
  | some s => .str s
  | none => .null

/-- A member that is left out when there is no value. -/
def optionalMember (key : String) : Option Json → List (String × Json)
  | some v => [(key, v)]
  | none => []

def IndexDep.toJson (d : IndexDep) : Json :=
  .obj ([("name", .str d.name), ("req", .str d.req),
      ("features", .arr (d.features.map Json.str)), ("optional", .bool d.optional),
      ("default_features", .bool d.defaultFeatures), ("target", optionalStr d.target),
      ("kind", .str d.kind), ("registry", optionalStr d.registry)] ++
    optionalMember "package" (d.package.map Json.str))

def IndexEntry.toJson (e : IndexEntry) : Json :=
  .obj ([("name", .str e.name), ("vers", .str e.vers),
      ("deps", .arr (e.deps.map IndexDep.toJson)), ("cksum", .str e.cksum),
      ("features", .obj (e.features.entries.map fun p => (p.1, .arr (p.2.map Json.str)))),
      ("yanked", .bool e.yanked)] ++
    optionalMember "links" (e.links.map Json.str) ++
    optionalMember "v" (e.v.map fun v => .num v.toNat) ++
    optionalMember "rust_version" (e.rustVersion.map Json.str))

/-- `serde_json::to_vec` of a record; it cannot fail on one. -/
def entryLine (e : IndexEntry) : Bytes :=
  Json.render e.toJson

/-! ## Object keys -/

/-- `index_key`: none where a slice of the name would cut a character in two, which panics. -/
def indexKey (name : String) : Option String :=
  let n := asciiLower name
  match (utf8 n).length with
  | 0 => some n
  | 1 => some ("1/" ++ n)
  | 2 => some ("2/" ++ n)
  | 3 => do
      let a ← slice? n 0 1
      return "3/" ++ a ++ "/" ++ n
  | _ => do
      let a ← slice? n 0 2
      let b ← slice? n 2 4
      return a ++ "/" ++ b ++ "/" ++ n

/-- `crate_key`. -/
def crateKey (name version : String) : String :=
  asciiLower name ++ "/" ++ version

/-- The index is case-insensitive: names that differ in case only share an object. -/
theorem indexKey_congr {name name' : String} (h : asciiLower name = asciiLower name') :
    indexKey name = indexKey name' := by
  unfold indexKey
  rw [h]

/-- Versions that share an artifact and a name up to case are the same version. -/
theorem vers_eq_of_crateKey {name name' vers vers' : String}
    (h : asciiLower name = asciiLower name') (hkey : crateKey name vers = crateKey name' vers') :
    vers = vers' := by
  unfold crateKey at hkey
  rw [h] at hkey
  exact (String.append_right_inj _).1 hkey

example : indexKey "a" = some "1/a" ∧ indexKey "Abc" = some "3/a/abc" ∧
    indexKey "data-mesh-client" = some "da/ta/data-mesh-client" ∧ indexKey "aébc" = none := by
  decide +kernel

/-! ## Reading records -/

/-- What a record says about the artifact it stands for; old records may lack the checksum. -/
structure Record where
  name : String
  vers : String
  cksum : Option String
  deriving DecidableEq

/-- The artifact a record stands for. -/
def Record.key (r : Record) : String :=
  crateKey r.name r.vers

/-- The record on a line of an index object. -/
def recordOf? (line : Bytes) : Option Record := do
  let v ← Json.parse line
  let name ← (v.field? "name").bind Json.asStr?
  let vers ← (v.field? "vers").bind Json.asStr?
  return { name := name, vers := vers, cksum := (v.field? "cksum").bind Json.asStr? }

/-- The records of an index object. -/
def recordsIn (body : Bytes) : List Record :=
  (lines body).filterMap recordOf?

/-- An optional member hides no other. -/
theorem lookup_optionalMember {k key : String} (h : k ≠ key) (value : Option Json)
    (rest : List (String × Json)) :
    ((optionalMember key value).reverse ++ rest).lookup k = rest.lookup k := by
  cases value with
  | none =>
      rfl
  | some v =>
      have hbeq : (k == key) = false := beq_false_of_ne h
      simp [optionalMember, List.lookup_cons, hbeq]

/-- A written record says what it was written for. -/
theorem recordOf?_entryLine (e : IndexEntry) :
    recordOf? (entryLine e) = some { name := e.name, vers := e.vers, cksum := some e.cksum } := by
  simp only [recordOf?, entryLine, Json.parse_render, IndexEntry.toJson, Json.field?,
    List.append_assoc]
  simp [lookup_optionalMember, List.lookup_cons, Json.asStr?]

theorem entryLine_ne_nil (e : IndexEntry) : entryLine e ≠ [] := by
  rcases Json.render_head e.toJson with ⟨b, t, hbt, -⟩
  unfold entryLine
  rw [hbt]
  exact List.cons_ne_nil b t

/-- Appending a record adds it to the records of the object and keeps the others. -/
theorem lines_appendLine_entryLine (body : Bytes) (e : IndexEntry) :
    lines (appendLine body (entryLine e)) = lines body ++ [entryLine e] :=
  lines_appendLine body (entryLine_ne_nil e) (Json.newline_not_mem_render e.toJson)

end CargoRegistry
end Aivcs
