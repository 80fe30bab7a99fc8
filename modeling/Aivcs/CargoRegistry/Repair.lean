import Aivcs.Lib.JsonValue
import Aivcs.CargoRegistry.Routes

/-!
# CargoRegistry.Repair — rebuilding index records from the artifacts

`repair.rs`: a record is rebuilt from the normalized `Cargo.toml` inside the stored `.crate` and
compared with the stored one as a JSON value.  `run` does so for every line of every index object.

`RepairEnv` holds what comes from other crates: the digest, the archive reader and the JSON and TOML
readers.  `Store::list` is the first call of a run and the only one that is not in `StoreOp`; its
answer is an argument.  Encoding a record cannot fail, so that branch is left out.
-/

namespace Aivcs
namespace CargoRegistry

open Aivcs.Lib

/-! ## The manifest -/

structure DetailedDep where
  version : Option String
  features : List String
  optional : Bool
  defaultFeatures : Bool
  registryIndex : Option String
  package : Option String
  deriving DecidableEq

/-- The derived `Default`: every flag is false. -/
def DetailedDep.default : DetailedDep :=
  ⟨none, [], false, false, none, none⟩

inductive ManifestDep where
  /-- `serde = "1"` -/
  | simple (version : String)
  | detailed (d : DetailedDep)
  deriving DecidableEq

def ManifestDep.detail : ManifestDep → DetailedDep
  | .simple v => { DetailedDep.default with version := some v }
  | .detailed d => d

abbrev DepTable : Type := BTreeMap String ManifestDep

structure DepSections where
  dependencies : DepTable
  devDependencies : DepTable
  buildDependencies : DepTable

structure PackageSection where
  name : String
  version : String
  links : Option String
  rustVersion : Option String

structure Manifest where
  package : PackageSection
  deps : DepSections
  target : BTreeMap String DepSections
  features : BTreeMap String (List String)

/-! ## The archive -/

/-- `std::path::Component` of a path in an archive. -/
inductive PathComponent where
  | rootDir
  | curDir
  | parentDir
  | normal (name : String)
  deriving DecidableEq

structure ArchiveEntry where
  path : Except String (List PathComponent)
  readToString : Except String String

/-- The functions the repair takes from other crates. -/
structure RepairEnv where
  /-- `hex::encode(Sha256::digest(..))` -/
  sha256Hex : Bytes → String
  /-- the entries of a gzipped tar -/
  entries : Bytes → Except String (List (Except String ArchiveEntry))
  /-- `toml::from_str::<Manifest>` -/
  fromToml : String → Except String Manifest
  /-- `serde_json::from_slice::<Value>` -/
  fromSlice : Bytes → Except String Json

/-- `<name>-<version>/Cargo.toml`, exactly two components. -/
def isManifest (path : List PathComponent) : Bool :=
  path.getLast? = some (.normal "Cargo.toml") && path.length = 2

/-- The text of the first manifest among the entries. -/
def findManifest : List (Except String ArchiveEntry) → Except String String
  | [] => .error "no Cargo.toml in .crate archive"
  | entry :: rest => do
      let entry ← entry
      let path ← entry.path
      if isManifest path then entry.readToString else findManifest rest

variable (E : RepairEnv)

def manifestFromCrate (crateBytes : Bytes) : Except String String := do
  let entries ← E.entries crateBytes
  findManifest entries

/-! ## The rebuilt record -/

/-- The index form of one entry of a dependency table. -/
def tableDep (kind : String) (target : Option String) (ownRegistry : String)
    (p : String × ManifestDep) : IndexDep :=
  let d := p.2.detail
  { name := p.1
    req := normalizeReq (d.version.getD "*")
    features := d.features
    optional := d.optional
    defaultFeatures := d.defaultFeatures
    target := target
    kind := kind
    registry :=
      match d.registryIndex with
      | none => some cratesIoIndex
      | some url => if sameRegistry url ownRegistry then none else some url
    package := d.package }

def toIndexDeps (table : DepTable) (kind : String) (target : Option String) (ownRegistry : String)
    (out : List IndexDep) : List IndexDep :=
  out ++ table.entries.map (tableDep kind target ownRegistry)

/-- The three tables of one target, or of none. -/
def sectionsToIndexDeps (sections : DepSections) (target : Option String) (ownRegistry : String)
    (out : List IndexDep) : List IndexDep :=
  let out := toIndexDeps sections.dependencies "normal" target ownRegistry out
  let out := toIndexDeps sections.devDependencies "dev" target ownRegistry out
  toIndexDeps sections.buildDependencies "build" target ownRegistry out

/-- The record a parsed manifest gives. -/
def manifestEntry (m : Manifest) (crateBytes : Bytes) (ownRegistry : String) (yanked : Bool) :
    IndexEntry :=
  { name := m.package.name
    vers := m.package.version
    deps := m.target.entries.foldl
      (fun out p => sectionsToIndexDeps p.2 (some p.1) ownRegistry out)
      (sectionsToIndexDeps m.deps none ownRegistry [])
    cksum := E.sha256Hex crateBytes
    features := m.features
    yanked := yanked
    links := m.package.links
    v := none
    rustVersion := m.package.rustVersion }

def regenerateEntry (manifestToml : String) (crateBytes : Bytes) (ownRegistry : String)
    (yanked : Bool) : Except String IndexEntry := do
  let m ← E.fromToml manifestToml
  pure (manifestEntry E m crateBytes ownRegistry yanked)

/-- The record of an artifact. -/
def rebuild (ownRegistry : String) (crateBytes : Bytes) (yanked : Bool) :
    Except String IndexEntry := do
  let manifestToml ← manifestFromCrate E crateBytes
  regenerateEntry E manifestToml crateBytes ownRegistry yanked

/-- A stored line and a rebuilt record are the same JSON value. -/
def recordMatches (line : Bytes) (rebuilt : IndexEntry) : Bool :=
  match E.fromSlice line with
  | .error _ => false
  | .ok stored => stored.sameValue rebuilt.toJson

/-! ## A run -/

structure RepairReport where
  records : Nat
  alreadyValid : Nat
  repaired : List String
  failed : List (String × String)
  deriving DecidableEq

def RepairReport.default : RepairReport :=
  ⟨0, 0, [], []⟩

def RepairReport.fail (report : RepairReport) (subject reason : String) : RepairReport :=
  { report with failed := report.failed ++ [(subject, reason)] }

def StoreError.toString : StoreError → String
  | .notFound => "object not found"
  | .unavailable message => "storage unavailable: " ++ message

/-- What becomes of a line. -/
inductive LineOutcome where
  | valid
  | failed (subject reason : String)
  | repaired (id : String) (entry : IndexEntry)

/-- The name, version and yank flag a parsed line carries, with their defaults. -/
def recordName (parsed : Json) : String :=
  ((parsed.field? "name").bind Json.asStr?).getD ""

def recordVers (parsed : Json) : String :=
  ((parsed.field? "vers").bind Json.asStr?).getD ""

def recordYanked (parsed : Json) : Bool :=
  ((parsed.field? "yanked").bind Json.asBool?).getD false

/-- The outcome of a line with the identifier `id`, given its artifact. -/
def compareLine (ownRegistry : String) (line : Bytes) (id : String) (yanked : Bool)
    (bytes : Bytes) : LineOutcome :=
  match rebuild E ownRegistry bytes yanked with
  | .error e => .failed id e
  | .ok entry => if recordMatches E line entry then .valid else .repaired id entry

def repairLine (ownRegistry key : String) (line : Bytes) : StoreProc LineOutcome :=
  match E.fromSlice line with
  | .error e => .ret (.failed key ("unparseable: " ++ e))
  | .ok parsed =>
      let id := recordName parsed ++ "@" ++ recordVers parsed
      (Store.get .crates (crateKey (recordName parsed) (recordVers parsed))).bind fun
        | .error e => .ret (.failed id ("artifact: " ++ e.toString))
        | .ok bytes => .ret (compareLine E ownRegistry line id (recordYanked parsed) bytes)

/-- The new body of an object so far. -/
structure Pass where
  out : Bytes
  changed : Bool
  report : RepairReport

def Pass.add (p : Pass) (line : Bytes) (outcome : LineOutcome) : Pass :=
  let report := { p.report with records := p.report.records + 1 }
  match outcome with
  | .valid =>
      { p with
        out := p.out ++ line ++ [10]
        report := { report with alreadyValid := report.alreadyValid + 1 } }
  | .failed subject reason =>
      { p with out := p.out ++ line ++ [10], report := report.fail subject reason }
  | .repaired id entry =>
      { out := p.out ++ entryLine entry ++ [10]
        changed := true
        report := { report with repaired := report.repaired ++ [id] } }

def repairLines (ownRegistry key : String) : List Bytes → Pass → StoreProc Pass
  | [], p => .ret p
  | line :: rest, p =>
      (repairLine E ownRegistry key line).bind fun outcome =>
        repairLines ownRegistry key rest (p.add line outcome)

def repairObject (ownRegistry : String) (apply : Bool) (key : String) (report : RepairReport) :
    StoreProc RepairReport :=
  (Store.get .index key).bind fun
    | .error e => .ret (report.fail key ("read: " ++ e.toString))
    | .ok body =>
        (repairLines E ownRegistry key (lines body) ⟨[], false, report⟩).bind fun p =>
          if p.changed && apply then
            (Store.put .index key p.out).bind fun
              | .error e => .ret (p.report.fail key ("write: " ++ e.toString))
              | .ok _ => .ret p.report
          else
            .ret p.report

def repairObjects (ownRegistry : String) (apply : Bool) :
    List String → RepairReport → StoreProc RepairReport
  | [], report => .ret report
  | key :: keys, report =>
      (repairObject E ownRegistry apply key report).bind (repairObjects ownRegistry apply keys)

/-- `run`; `listed` is the answer of `Store::list`. -/
def run (ownRegistry : String) (apply : Bool) (listed : Except StoreError (List String)) :
    StoreProc (Except String RepairReport) :=
  match listed with
  | .error e => .ret (.error ("listing index: " ++ e.toString))
  | .ok keys =>
      (repairObjects E ownRegistry apply keys RepairReport.default).bind fun report =>
        .ret (.ok report)

/-! ## Records as values -/

section Values

theorem lookup_optionalMember_self (key : String) (value : Option Json)
    (rest : List (String × Json)) :
    ((optionalMember key value).reverse ++ rest).lookup key = value.or (rest.lookup key) := by
  cases value <;> simp [optionalMember]

@[simp] theorem canon_optionalStr (s : Option String) : (optionalStr s).canon = optionalStr s := by
  cases s <;> simp [optionalStr]

theorem optionalStr_injective : Function.Injective optionalStr := by
  intro s t h
  cases s <;> cases t <;> simp_all [optionalStr]

theorem map_str_injective : Function.Injective (List.map Json.str) :=
  List.map_injective_iff.mpr fun _ _ h => Json.str.inj h

theorem map_canon_str (s : Option String) : (s.map Json.str).map Json.canon = s.map Json.str := by
  cases s <;> simp

theorem option_map_str_injective : Function.Injective (Option.map Json.str) :=
  Option.map_injective fun _ _ h => Json.str.inj h

/-- Dependencies with one JSON value are equal. -/
theorem IndexDep.eq_of_canon {d d' : IndexDep} (h : d.toJson.canon = d'.toJson.canon) :
    d = d' := by
  have hfield := Json.field?_eq_of_canon_eq h
  simp only [IndexDep.toJson, Json.field?, List.reverse_append] at hfield
  have hname : d.name = d'.name := by
    simpa [lookup_optionalMember, List.lookup_cons] using hfield "name"
  have hreq : d.req = d'.req := by
    simpa [lookup_optionalMember, List.lookup_cons] using hfield "req"
  have hfeatures : d.features = d'.features := by
    apply map_str_injective
    simpa [lookup_optionalMember, List.lookup_cons, -Json.canon_arr, Json.canon_strs] using
      hfield "features"
  have hoptional : d.optional = d'.optional := by
    simpa [lookup_optionalMember, List.lookup_cons] using hfield "optional"
  have hdefault : d.defaultFeatures = d'.defaultFeatures := by
    simpa [lookup_optionalMember, List.lookup_cons] using hfield "default_features"
  have htarget : d.target = d'.target := by
    apply optionalStr_injective
    simpa [lookup_optionalMember, List.lookup_cons] using hfield "target"
  have hkind : d.kind = d'.kind := by
    simpa [lookup_optionalMember, List.lookup_cons] using hfield "kind"
  have hregistry : d.registry = d'.registry := by
    apply optionalStr_injective
    simpa [lookup_optionalMember, List.lookup_cons] using hfield "registry"
  have hpackage : d.package = d'.package := by
    apply option_map_str_injective
    simpa [lookup_optionalMember_self, List.lookup_cons, -Option.map_map, map_canon_str] using
      hfield "package"
  cases d
  cases d'
  simp_all

/-- So are the feature tables. -/
theorem features_eq_of_canon {f f' : BTreeMap String (List String)}
    (h : (Json.obj (f.entries.map fun p => (p.1, .arr (p.2.map Json.str)))).canon =
      (Json.obj (f'.entries.map fun p => (p.1, .arr (p.2.map Json.str)))).canon) : f = f' := by
  -- The entries are in key order, so `canon` leaves them in place.
  have hcanon : ∀ f : BTreeMap String (List String),
      (Json.obj (f.entries.map fun p => (p.1, .arr (p.2.map Json.str)))).canon =
        .obj (f.entries.map fun p => (p.1, .arr (p.2.map Json.str))) := by
    intro f
    have hsorted : (f.entries.map fun p => (p.1, Json.arr (p.2.map Json.str))).Pairwise
        fun a b => a.1 < b.1 := by
      rw [List.pairwise_map]
      exact f.sorted
    rw [Json.canon, Json.canonMembers_of_sorted hsorted, List.map_map]
    exact congrArg Json.obj (List.map_congr_left fun p _ =>
      congrArg (Prod.mk p.1) (Json.canon_strs p.2))
  rw [hcanon, hcanon] at h
  have hinj : Function.Injective fun p : String × List String =>
      (p.1, Json.arr (p.2.map Json.str)) := by
    intro p q hpq
    simp only [Prod.mk.injEq] at hpq
    exact Prod.ext hpq.1 (map_str_injective (Json.arr.inj hpq.2))
  have hentries : f.entries = f'.entries := List.map_injective_iff.mpr hinj (Json.obj.inj h)
  cases f
  cases f'
  simp_all

/-- Records with one JSON value are equal. -/
theorem IndexEntry.eq_of_canon {e e' : IndexEntry} (h : e.toJson.canon = e'.toJson.canon) :
    e = e' := by
  have hfield := Json.field?_eq_of_canon_eq h
  simp only [IndexEntry.toJson, Json.field?, List.reverse_append, List.append_assoc] at hfield
  have hname : e.name = e'.name := by
    simpa [lookup_optionalMember, List.lookup_cons] using hfield "name"
  have hvers : e.vers = e'.vers := by
    simpa [lookup_optionalMember, List.lookup_cons] using hfield "vers"
  have hdeps : e.deps = e'.deps := by
    have hmap : e.deps.map (Json.canon ∘ IndexDep.toJson) =
        e'.deps.map (Json.canon ∘ IndexDep.toJson) := by
      simpa [lookup_optionalMember, List.lookup_cons] using hfield "deps"
    exact List.map_injective_iff.mpr (fun _ _ h => IndexDep.eq_of_canon h) hmap
  have hcksum : e.cksum = e'.cksum := by
    simpa [lookup_optionalMember, List.lookup_cons] using hfield "cksum"
  have hfeatures : e.features = e'.features := by
    apply features_eq_of_canon
    simpa [lookup_optionalMember, List.lookup_cons] using hfield "features"
  have hyanked : e.yanked = e'.yanked := by
    simpa [lookup_optionalMember, List.lookup_cons] using hfield "yanked"
  have hlinks : e.links = e'.links := by
    apply option_map_str_injective
    simpa [lookup_optionalMember, lookup_optionalMember_self, List.lookup_cons, -Option.map_map,
      map_canon_str] using hfield "links"
  have hv : e.v = e'.v := by
    have hinj : Function.Injective fun v : UInt32 => Json.num v.toNat := by
      intro a b hab
      exact UInt32.toNat_inj.mp (by simpa using hab)
    have hcanon : ∀ v : Option UInt32, (v.map fun v => Json.num v.toNat).map Json.canon =
        v.map fun v => Json.num v.toNat := by
      intro v
      cases v <;> simp
    apply Option.map_injective hinj
    simpa [lookup_optionalMember, lookup_optionalMember_self, List.lookup_cons, -Option.map_map,
      hcanon] using hfield "v"
  have hrust : e.rustVersion = e'.rustVersion := by
    apply option_map_str_injective
    simpa [lookup_optionalMember, lookup_optionalMember_self, List.lookup_cons, -Option.map_map,
      map_canon_str] using hfield "rust_version"
  cases e
  cases e'
  simp_all

/-- The JSON reader reads back the records `serde_json` writes. -/
def RepairEnv.ReadsRecords : Prop :=
  ∀ e : IndexEntry, E.fromSlice (entryLine e) = .ok e.toJson

/-- A written record matches a rebuilt one exactly when they are equal. -/
theorem recordMatches_entryLine (hjson : E.ReadsRecords) (e e' : IndexEntry) :
    recordMatches E (entryLine e) e' = true ↔ e = e' := by
  unfold recordMatches
  rw [hjson, Json.sameValue_iff]
  constructor
  · exact IndexEntry.eq_of_canon
  · rintro rfl
    rfl

end Values

end CargoRegistry
end Aivcs
