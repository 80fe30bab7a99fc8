import Mathlib.Data.Prod.Lex
import Mathlib.Order.WithBot
import Aivcs.CargoRegistry.Repair

/-!
# CargoRegistry.RepairAgreement — when repair agrees with publish

Publish writes the record of a package from the metadata cargo sends, repair from the manifest in the
artifact.  `Dependency` is what a dependency means, whichever way it is spelled; both encoders go
through `Dependency.encode`, except that repair reads a plain `dep = "req"` as one without default
features.  The records are JSON arrays in the order of the request and of the tables, so they match
exactly when nothing is spelled plainly and the request lists the dependencies in table order
(`repair_agrees_with_publish_iff`).
-/

namespace Aivcs
namespace CargoRegistry

open Aivcs.Lib

/-! ## What a dependency means -/

inductive SourceRegistry where
  | cratesIo
  /-- the registry the record is in -/
  | own
  | other (url : String)
  deriving DecidableEq

structure Dependency where
  /-- the name it has in the manifest -/
  name : String
  /-- the package it stands for, if renamed -/
  package : Option String
  /-- the requirement, with the caret spelled out -/
  req : String
  features : List String
  optional : Bool
  defaultFeatures : Bool
  target : Option String
  kind : String
  registry : SourceRegistry
  deriving DecidableEq

/-- A missing registry is crates.io. -/
def registryOf (ownRegistry : String) : Option String → SourceRegistry
  | none => .cratesIo
  | some url => if sameRegistry url ownRegistry then .own else .other url

def PublishDep.meaning (ownRegistry : String) (d : PublishDep) : Dependency :=
  { name := d.explicitNameInToml.getD d.name
    package := d.explicitNameInToml.map fun _ => d.name
    req := normalizeReq d.versionReq
    features := d.features
    optional := d.optional
    defaultFeatures := d.defaultFeatures
    target := d.target
    kind := d.kind.getD "normal"
    registry := registryOf ownRegistry d.registry }

/-- An entry of a dependency table. -/
structure TableEntry where
  target : Option String
  kind : String
  key : String
  dep : ManifestDep

/-- A plain requirement is a crates.io dependency with its default features. -/
def TableEntry.meaning (ownRegistry : String) (x : TableEntry) : Dependency :=
  match x.dep with
  | .simple v =>
      { name := x.key
        package := none
        req := normalizeReq v
        features := []
        optional := false
        defaultFeatures := true
        target := x.target
        kind := x.kind
        registry := .cratesIo }
  | .detailed d =>
      { name := x.key
        package := d.package
        req := normalizeReq (d.version.getD "*")
        features := d.features
        optional := d.optional
        defaultFeatures := d.defaultFeatures
        target := x.target
        kind := x.kind
        registry := registryOf ownRegistry d.registryIndex }

/-- The index form of a dependency. -/
def Dependency.encode (d : Dependency) : IndexDep :=
  { name := d.name
    req := d.req
    features := d.features
    optional := d.optional
    defaultFeatures := d.defaultFeatures
    target := d.target
    kind := d.kind
    registry :=
      match d.registry with
      | .cratesIo => some cratesIoIndex
      | .own => none
      | .other url => some url
    package := d.package }

def TableEntry.index (ownRegistry : String) (x : TableEntry) : IndexDep :=
  tableDep x.kind x.target ownRegistry (x.key, x.dep)

theorem indexDep_eq_encode (ownRegistry : String) (d : PublishDep) :
    indexDep (some ownRegistry) d = (d.meaning ownRegistry).encode := by
  cases hregistry : d.registry with
  | none =>
      simp [indexDep, PublishDep.meaning, Dependency.encode, registryOf, hregistry]
  | some url =>
      by_cases hsame : sameRegistry url ownRegistry = true <;>
        simp [indexDep, PublishDep.meaning, Dependency.encode, registryOf, hregistry, hsame]

theorem TableEntry.index_detailed (ownRegistry : String) {x : TableEntry} {d : DetailedDep}
    (h : x.dep = .detailed d) : x.index ownRegistry = (x.meaning ownRegistry).encode := by
  cases hregistry : d.registryIndex with
  | none =>
      simp [index, meaning, tableDep, Dependency.encode, registryOf, ManifestDep.detail, h,
        hregistry]
  | some url =>
      by_cases hsame : sameRegistry url ownRegistry = true <;>
        simp [index, meaning, tableDep, Dependency.encode, registryOf, ManifestDep.detail, h,
          hregistry, hsame]

/-- Read by repair, a plain dependency has no default features. -/
theorem TableEntry.index_simple (ownRegistry : String) {x : TableEntry} {v : String}
    (h : x.dep = .simple v) : x.index ownRegistry =
      { (x.meaning ownRegistry).encode with defaultFeatures := false } := by
  simp [index, meaning, tableDep, Dependency.encode, ManifestDep.detail, DetailedDep.default, h]

/-! ## The order of the tables -/

/-- The place of a kind among the tables of a target. -/
def kindRank (kind : String) : Nat :=
  if kind = "normal" then 0 else if kind = "dev" then 1 else if kind = "build" then 2 else 3

/-- No target comes before every target. -/
def targetPlace : Option String → WithBot String
  | none => ⊥
  | some target => target

/-- Where a dependency stands: those without a target first, then by target, kind and name. -/
def tablePlace (target : Option String) (kind name : String) : WithBot String ×ₗ ℕ ×ₗ String :=
  toLex (targetPlace target, toLex (kindRank kind, name))

def Dependency.place (d : Dependency) : WithBot String ×ₗ ℕ ×ₗ String :=
  tablePlace d.target d.kind d.name

def IndexDep.place (d : IndexDep) : WithBot String ×ₗ ℕ ×ₗ String :=
  tablePlace d.target d.kind d.name

def tableEntries (table : DepTable) (kind : String) (target : Option String) : List TableEntry :=
  table.entries.map fun p => ⟨target, kind, p.1, p.2⟩

def sectionEntries (sections : DepSections) (target : Option String) : List TableEntry :=
  tableEntries sections.dependencies "normal" target ++
    tableEntries sections.devDependencies "dev" target ++
    tableEntries sections.buildDependencies "build" target

/-- The dependencies of a manifest in the order repair lists them. -/
def manifestEntries (m : Manifest) : List TableEntry :=
  sectionEntries m.deps none ++
    m.target.entries.flatMap fun p => sectionEntries p.2 (some p.1)

theorem deps_manifestEntry (E : RepairEnv) (m : Manifest) (crateBytes : Bytes)
    (ownRegistry : String) (yanked : Bool) :
    (manifestEntry E m crateBytes ownRegistry yanked).deps =
      (manifestEntries m).map (TableEntry.index ownRegistry) := by
  have hsections : ∀ sections target out, sectionsToIndexDeps sections target ownRegistry out =
      out ++ (sectionEntries sections target).map (TableEntry.index ownRegistry) := by
    intro sections target out
    simp [sectionsToIndexDeps, toIndexDeps, sectionEntries, tableEntries, Function.comp_def,
      TableEntry.index]
  have hfold : ∀ (l : List (String × DepSections)) (out : List IndexDep),
      l.foldl (fun out p => sectionsToIndexDeps p.2 (some p.1) ownRegistry out) out =
        out ++ (l.flatMap fun p => sectionEntries p.2 (some p.1)).map
          (TableEntry.index ownRegistry) := by
    intro l
    induction l with
    | nil =>
        simp
    | cons p l ih =>
        intro out
        rw [List.foldl_cons, ih, hsections, List.flatMap_cons, List.map_append, List.append_assoc]
  simp only [manifestEntry]
  rw [hfold, hsections, List.nil_append, manifestEntries, List.map_append]

def TableEntry.place (x : TableEntry) : WithBot String ×ₗ ℕ ×ₗ String :=
  tablePlace x.target x.kind x.key

theorem tablePlace_lt_of_name {target : Option String} {kind name name' : String}
    (h : name < name') : tablePlace target kind name < tablePlace target kind name' := by
  refine Prod.Lex.toLex_lt_toLex.mpr (Or.inr ⟨rfl, ?_⟩)
  exact Prod.Lex.toLex_lt_toLex.mpr (Or.inr ⟨rfl, h⟩)

theorem tablePlace_lt_of_kind {target : Option String} {kind kind' name name' : String}
    (h : kindRank kind < kindRank kind') :
    tablePlace target kind name < tablePlace target kind' name' := by
  refine Prod.Lex.toLex_lt_toLex.mpr (Or.inr ⟨rfl, ?_⟩)
  exact Prod.Lex.toLex_lt_toLex.mpr (Or.inl h)

theorem tablePlace_lt_of_target {target target' : Option String} {kind kind' name name' : String}
    (h : targetPlace target < targetPlace target') :
    tablePlace target kind name < tablePlace target' kind' name' :=
  Prod.Lex.toLex_lt_toLex.mpr (Or.inl h)

theorem pairwise_tableEntries (table : DepTable) (kind : String) (target : Option String) :
    (tableEntries table kind target).Pairwise fun x y => x.place < y.place := by
  unfold tableEntries
  rw [List.pairwise_map]
  exact table.sorted.imp fun h => tablePlace_lt_of_name h

theorem mem_tableEntries {table : DepTable} {kind : String} {target : Option String}
    {x : TableEntry} (h : x ∈ tableEntries table kind target) : x.target = target ∧ x.kind = kind := by
  obtain ⟨p, -, rfl⟩ := List.mem_map.mp h
  exact ⟨rfl, rfl⟩

theorem mem_sectionEntries_target {sections : DepSections} {target : Option String}
    {x : TableEntry} (h : x ∈ sectionEntries sections target) : x.target = target := by
  simp only [sectionEntries, List.mem_append] at h
  rcases h with (h | h) | h <;> exact (mem_tableEntries h).1

theorem pairwise_sectionEntries (sections : DepSections) (target : Option String) :
    (sectionEntries sections target).Pairwise fun x y => x.place < y.place := by
  have hkind : ∀ {x y : TableEntry}, x.target = y.target → kindRank x.kind < kindRank y.kind →
      x.place < y.place := by
    rintro ⟨t, k, n, d⟩ ⟨t', k', n', d'⟩ htarget hrank
    obtain rfl : t = t' := htarget
    exact tablePlace_lt_of_kind hrank
  unfold sectionEntries
  rw [List.pairwise_append, List.pairwise_append]
  refine ⟨⟨pairwise_tableEntries _ _ _, pairwise_tableEntries _ _ _, ?_⟩,
    pairwise_tableEntries _ _ _, ?_⟩
  · intro x hx y hy
    obtain ⟨hxt, hxk⟩ := mem_tableEntries hx
    obtain ⟨hyt, hyk⟩ := mem_tableEntries hy
    exact hkind (hxt.trans hyt.symm) (by rw [hxk, hyk]; decide)
  · intro x hx y hy
    obtain ⟨hyt, hyk⟩ := mem_tableEntries hy
    rcases List.mem_append.mp hx with hx | hx
    · obtain ⟨hxt, hxk⟩ := mem_tableEntries hx
      exact hkind (hxt.trans hyt.symm) (by rw [hxk, hyk]; decide)
    · obtain ⟨hxt, hxk⟩ := mem_tableEntries hx
      exact hkind (hxt.trans hyt.symm) (by rw [hxk, hyk]; decide)

/-- The tables are listed in order, each place once. -/
theorem pairwise_manifestEntries (m : Manifest) :
    (manifestEntries m).Pairwise fun x y => x.place < y.place := by
  have htarget : ∀ {x y : TableEntry}, targetPlace x.target < targetPlace y.target →
      x.place < y.place := by
    intro x y h
    exact tablePlace_lt_of_target h
  unfold manifestEntries
  rw [List.pairwise_append]
  refine ⟨pairwise_sectionEntries _ _, ?_, ?_⟩
  · rw [List.pairwise_flatMap]
    refine ⟨fun p _ => pairwise_sectionEntries _ _, m.target.sorted.imp ?_⟩
    intro p q hpq x hx y hy
    apply htarget
    rw [mem_sectionEntries_target hx, mem_sectionEntries_target hy]
    exact WithBot.coe_lt_coe.mpr hpq
  · intro x hx y hy
    obtain ⟨p, -, hy⟩ := List.mem_flatMap.mp hy
    apply htarget
    rw [mem_sectionEntries_target hx, mem_sectionEntries_target hy]
    exact WithBot.bot_lt_coe _

/-! ## Publish and repair -/

/-- The metadata of a publish and a manifest are about the same package: they agree on its fields and
have the same set of dependencies. -/
structure Describes (ownRegistry : String) (P : PublishMeta) (m : Manifest) : Prop where
  name : P.name = m.package.name
  vers : P.vers = m.package.version
  links : P.links = m.package.links
  rustVersion : P.rustVersion = m.package.rustVersion
  features : P.features = m.features
  deps : ∀ d, d ∈ P.deps.map (PublishDep.meaning ownRegistry) ↔
    d ∈ (manifestEntries m).map (TableEntry.meaning ownRegistry)

/-- No dependency is spelled `dep = "req"`. -/
def SpelledOut (m : Manifest) : Prop :=
  ∀ x ∈ manifestEntries m, ∀ v, x.dep ≠ .simple v

def PublishDep.place (d : PublishDep) : WithBot String ×ₗ ℕ ×ₗ String :=
  tablePlace d.target (d.kind.getD "normal") (d.explicitNameInToml.getD d.name)

/-- The request lists its dependencies as the tables do: by target, kind and name, none twice. -/
def InTableOrder (P : PublishMeta) : Prop :=
  P.deps.Pairwise fun a b => a.place < b.place

section Agreement

variable {ownRegistry : String}

theorem TableEntry.place_meaning (x : TableEntry) : (x.meaning ownRegistry).place = x.place := by
  unfold meaning
  split <;> rfl

theorem TableEntry.place_index (x : TableEntry) : (x.index ownRegistry).place = x.place := rfl

/-- Lists in strict order with the same members are equal. -/
theorem eq_of_place_lt {l l' : List Dependency}
    (h : l.Pairwise fun a b => a.place < b.place) (h' : l'.Pairwise fun a b => a.place < b.place)
    (hmem : ∀ d, d ∈ l ↔ d ∈ l') : l = l' := by
  have hnodup : ∀ {l : List Dependency}, (l.Pairwise fun a b => a.place < b.place) → l.Nodup := by
    intro l h
    exact h.imp fun hlt heq => absurd (heq ▸ hlt) (lt_irrefl _)
  have hperm : l.Perm l' :=
    (List.perm_ext_iff_of_nodup (hnodup h) (hnodup h')).mpr hmem
  exact hperm.eq_of_pairwise (fun a b _ _ hab hba => absurd hba (lt_asymm hab)) h h'

/-- An entry is determined by its place. -/
theorem eq_of_place_eq {m : Manifest} {x y : TableEntry} (hx : x ∈ manifestEntries m)
    (hy : y ∈ manifestEntries m) (h : x.place = y.place) : x = y := by
  have hnodup : ((manifestEntries m).map TableEntry.place).Nodup := by
    rw [List.Nodup, List.pairwise_map]
    exact (pairwise_manifestEntries m).imp ne_of_lt
  exact List.inj_on_of_nodup_map hnodup hx hy h

theorem spelledOut_of_deps_eq {P : PublishMeta} {m : Manifest} (h : Describes ownRegistry P m)
    (heq : P.deps.map (indexDep (some ownRegistry)) =
      (manifestEntries m).map (TableEntry.index ownRegistry)) : SpelledOut m := by
  intro x hx v hplain
  -- The request's dependency in this place means what `x` means, but is written without defaults.
  have hindex : x.index ownRegistry ∈ P.deps.map (indexDep (some ownRegistry)) :=
    heq ▸ List.mem_map_of_mem hx
  obtain ⟨p, hp, hpx⟩ := List.mem_map.mp hindex
  rw [indexDep_eq_encode] at hpx
  obtain ⟨y, hy, hyp⟩ := List.mem_map.mp ((h.deps _).mp (List.mem_map_of_mem hp))
  have hplace : y.place = x.place := by
    calc y.place = (y.meaning ownRegistry).place := (y.place_meaning).symm
      _ = (p.meaning ownRegistry).encode.place := by rw [hyp]; rfl
      _ = (x.index ownRegistry).place := by rw [hpx]
      _ = x.place := x.place_index
  obtain rfl := eq_of_place_eq hy hx hplace
  have hdefault := congrArg IndexDep.defaultFeatures hpx
  rw [y.index_simple ownRegistry hplain, ← hyp] at hdefault
  have htrue : (y.meaning ownRegistry).defaultFeatures = true := by
    simp [TableEntry.meaning, hplain]
  have hfalse : (y.meaning ownRegistry).defaultFeatures = false := hdefault
  exact absurd (htrue.symm.trans hfalse) (by decide)

theorem inTableOrder_of_deps_eq {P : PublishMeta} {m : Manifest}
    (heq : P.deps.map (indexDep (some ownRegistry)) =
      (manifestEntries m).map (TableEntry.index ownRegistry)) : InTableOrder P := by
  have hplaces := congrArg (List.map IndexDep.place) heq
  rw [List.map_map, List.map_map] at hplaces
  have hsorted : ((manifestEntries m).map (IndexDep.place ∘ TableEntry.index ownRegistry)).Pairwise
      (· < ·) := by
    rw [List.pairwise_map]
    exact pairwise_manifestEntries m
  rw [← hplaces, List.pairwise_map] at hsorted
  exact hsorted

theorem deps_eq_of_inTableOrder {P : PublishMeta} {m : Manifest} (h : Describes ownRegistry P m)
    (hspelled : SpelledOut m) (horder : InTableOrder P) :
    P.deps.map (indexDep (some ownRegistry)) =
      (manifestEntries m).map (TableEntry.index ownRegistry) := by
  have hmeaning : P.deps.map (PublishDep.meaning ownRegistry) =
      (manifestEntries m).map (TableEntry.meaning ownRegistry) := by
    refine eq_of_place_lt ?_ ?_ h.deps
    · rw [List.pairwise_map]
      exact horder
    · rw [List.pairwise_map]
      refine (pairwise_manifestEntries m).imp ?_
      intro x y hxy
      rw [x.place_meaning, y.place_meaning]
      exact hxy
  have hindex : (manifestEntries m).map (TableEntry.index ownRegistry) =
      (manifestEntries m).map fun x => (x.meaning ownRegistry).encode := by
    refine List.map_congr_left ?_
    intro x hx
    cases hdep : x.dep with
    | simple v =>
        exact absurd hdep (hspelled x hx v)
    | detailed d =>
        exact x.index_detailed ownRegistry hdep
  calc P.deps.map (indexDep (some ownRegistry))
      = P.deps.map fun d => (d.meaning ownRegistry).encode :=
        List.map_congr_left fun d _ => indexDep_eq_encode ownRegistry d
    _ = (P.deps.map (PublishDep.meaning ownRegistry)).map Dependency.encode := by
        rw [List.map_map]; rfl
    _ = ((manifestEntries m).map (TableEntry.meaning ownRegistry)).map Dependency.encode := by
        rw [hmeaning]
    _ = (manifestEntries m).map (TableEntry.index ownRegistry) := by
        rw [hindex, List.map_map]; rfl

/-- For metadata and a manifest of one package: the record publish writes and the one repair rebuilds
from the artifact match if and only if the manifest spells no dependency plainly and the request lists
the dependencies in table order. -/
theorem repair_agrees_with_publish_iff (E : RepairEnv) (hjson : E.ReadsRecords) (P : PublishMeta)
    (manifestToml : String) (m : Manifest) (htoml : E.fromToml manifestToml = .ok m)
    (crateBytes : Bytes) (ownRegistry : String) (h : Describes ownRegistry P m) :
    ∃ entry, regenerateEntry E manifestToml crateBytes ownRegistry false = .ok entry ∧
      (recordMatches E (entryLine (indexEntry E.sha256Hex P crateBytes (some ownRegistry)))
        entry = true ↔ SpelledOut m ∧ InTableOrder P) := by
  refine ⟨manifestEntry E m crateBytes ownRegistry false, ?_, ?_⟩
  · simp only [regenerateEntry, htoml]
    rfl
  · rw [recordMatches_entryLine E hjson]
    have hdeps := deps_manifestEntry E m crateBytes ownRegistry false
    constructor
    · intro heq
      have hsame : P.deps.map (indexDep (some ownRegistry)) =
          (manifestEntries m).map (TableEntry.index ownRegistry) :=
        (congrArg IndexEntry.deps heq).trans hdeps
      exact ⟨spelledOut_of_deps_eq h hsame, inTableOrder_of_deps_eq hsame⟩
    · rintro ⟨hspelled, horder⟩
      have hsame := (deps_eq_of_inTableOrder h hspelled horder).trans hdeps.symm
      unfold indexEntry
      rw [hsame, h.name, h.vers, h.links, h.rustVersion, h.features]
      rfl

end Agreement

/-! ## Two manifests -/

/-- `serde = "1"`. -/
def plainTable : DepTable :=
  { entries := [("serde", .simple "1")]
    sorted := by decide }

/-- `[dependencies.serde]` with `version = "1"`. -/
def demoDetail : ManifestDep :=
  .detailed { DetailedDep.default with version := some "1", defaultFeatures := true }

def spelledTable : DepTable :=
  { entries := [("anyhow", demoDetail), ("serde", demoDetail)]
    sorted := by decide }

/-- The package `demo 0.1.0` with the given dependencies. -/
def demoManifest (dependencies : DepTable) : Manifest :=
  { package := ⟨"demo", "0.1.0", none, none⟩
    deps := ⟨dependencies, BTreeMap.empty, BTreeMap.empty⟩
    target := BTreeMap.empty
    features := BTreeMap.empty }

def plainToml : String :=
  "[package]\nname = \"demo\"\nversion = \"0.1.0\"\n\n[dependencies]\nserde = \"1\"\n"

def spelledToml : String :=
  "[package]\nname = \"demo\"\nversion = \"0.1.0\"\n\n[dependencies.anyhow]\nversion = \"1\"\n\n" ++
    "[dependencies.serde]\nversion = \"1\"\n"

/-- The readers, on these two manifests and one small artifact. -/
def demoEnv : RepairEnv :=
  { sha256Hex := tableDigest
      [(utf8 "x", "2d711642b726b04401627ca9fbac32f5c8530fb1903cc4db02258717921a4881")]
    entries := fun _ => .error "invalid gzip header"
    fromToml := fun toml =>
      if toml = plainToml then .ok (demoManifest plainTable)
      else if toml = spelledToml then .ok (demoManifest spelledTable)
      else .error "TOML parse error"
    fromSlice := fun bs => (Json.parse bs).elim (.error "expected value") .ok }

theorem demoEnv_readsRecords : demoEnv.ReadsRecords := by
  intro e
  simp [demoEnv, entryLine, Json.parse_render]

/-- The same dependencies as cargo sends them. -/
def demoPublish (names : List String) : PublishMeta :=
  { name := "demo"
    vers := "0.1.0"
    deps := names.map fun name =>
      { name := name, versionReq := "^1", features := [], optional := false, defaultFeatures := true
        target := none, kind := some "normal", registry := none, explicitNameInToml := none }
    features := BTreeMap.empty
    links := none
    rustVersion := none }

theorem describes_demo {names : List String} {table : DepTable}
    (h : ∀ d, d ∈ (demoPublish names).deps.map (PublishDep.meaning "https://registry.aivcs.io") ↔
      d ∈ (manifestEntries (demoManifest table)).map
        (TableEntry.meaning "https://registry.aivcs.io")) :
    Describes "https://registry.aivcs.io" (demoPublish names) (demoManifest table) :=
  ⟨rfl, rfl, rfl, rfl, rfl, h⟩

theorem describes_plain : Describes "https://registry.aivcs.io" (demoPublish ["serde"])
    (demoManifest plainTable) := by
  have hdeps : (demoPublish ["serde"]).deps.map (PublishDep.meaning "https://registry.aivcs.io") =
      (manifestEntries (demoManifest plainTable)).map
        (TableEntry.meaning "https://registry.aivcs.io") := by
    decide +kernel
  exact describes_demo fun d => by rw [hdeps]

theorem describes_spelled : Describes "https://registry.aivcs.io" (demoPublish ["anyhow", "serde"])
    (demoManifest spelledTable) := by
  have hdeps : (demoPublish ["anyhow", "serde"]).deps.map
        (PublishDep.meaning "https://registry.aivcs.io") =
      (manifestEntries (demoManifest spelledTable)).map
        (TableEntry.meaning "https://registry.aivcs.io") := by
    decide +kernel
  exact describes_demo fun d => by rw [hdeps]

/-- With both tables spelled out and the request in their order, the record is left alone. -/
theorem repair_agrees_with_publish_spelled :
    ∃ entry, regenerateEntry demoEnv spelledToml (utf8 "x") "https://registry.aivcs.io" false =
        .ok entry ∧
      recordMatches demoEnv (entryLine (indexEntry demoEnv.sha256Hex
        (demoPublish ["anyhow", "serde"]) (utf8 "x") (some "https://registry.aivcs.io")))
        entry = true := by
  have htoml : demoEnv.fromToml spelledToml = .ok (demoManifest spelledTable) := by
    have hne : spelledToml ≠ plainToml := by decide +kernel
    simp [demoEnv, hne]
  obtain ⟨entry, hentry, hiff⟩ := repair_agrees_with_publish_iff demoEnv demoEnv_readsRecords
    (demoPublish ["anyhow", "serde"]) spelledToml (demoManifest spelledTable) htoml (utf8 "x")
    "https://registry.aivcs.io" describes_spelled
  refine ⟨entry, hentry, hiff.mpr ⟨?_, ?_⟩⟩
  · intro x hx v hplain
    have hall : ∀ x ∈ manifestEntries (demoManifest spelledTable), x.dep = demoDetail := by
      simp [manifestEntries, sectionEntries, tableEntries, demoManifest, spelledTable,
        BTreeMap.empty]
    exact absurd ((hall x hx).symm.trans hplain) (by simp [demoDetail])
  · have hlt : ("anyhow" : String) < "serde" := by decide
    simpa [InTableOrder, demoPublish, PublishDep.place] using tablePlace_lt_of_name hlt

/-- A plain `serde = "1"` is rebuilt without default features, and a request that lists `serde` before
`anyhow` is rebuilt the other way round: publish wrote either record for this very package, and neither
matches. -/
theorem repair_disagrees_with_publish :
    (Describes "https://registry.aivcs.io" (demoPublish ["serde"]) (demoManifest plainTable) ∧
      ∃ entry, regenerateEntry demoEnv plainToml (utf8 "x") "https://registry.aivcs.io" false =
          .ok entry ∧
        recordMatches demoEnv (entryLine (indexEntry demoEnv.sha256Hex (demoPublish ["serde"])
          (utf8 "x") (some "https://registry.aivcs.io"))) entry = false) ∧
    (Describes "https://registry.aivcs.io" (demoPublish ["serde", "anyhow"])
        (demoManifest spelledTable) ∧
      ∃ entry, regenerateEntry demoEnv spelledToml (utf8 "x") "https://registry.aivcs.io" false =
          .ok entry ∧
        recordMatches demoEnv (entryLine (indexEntry demoEnv.sha256Hex
          (demoPublish ["serde", "anyhow"]) (utf8 "x") (some "https://registry.aivcs.io")))
          entry = false) := by
  refine ⟨⟨describes_plain, manifestEntry demoEnv (demoManifest plainTable) (utf8 "x")
    "https://registry.aivcs.io" false, rfl, ?_⟩, ⟨?_, manifestEntry demoEnv
    (demoManifest spelledTable) (utf8 "x") "https://registry.aivcs.io" false, ?_, ?_⟩⟩
  · rw [Bool.eq_false_iff, ne_eq, recordMatches_entryLine demoEnv demoEnv_readsRecords]
    intro heq
    have hdefault := congrArg (fun e => e.deps.map IndexDep.defaultFeatures) heq
    exact absurd hdefault (by decide +kernel)
  · refine describes_demo fun d => ?_
    rw [← describes_spelled.deps d]
    simp only [demoPublish, List.map_cons, List.map_nil, List.mem_cons, List.not_mem_nil, or_false]
    exact Or.comm
  · have hne : spelledToml ≠ plainToml := by decide +kernel
    simp only [regenerateEntry, demoEnv, if_neg hne, if_true]
    rfl
  · rw [Bool.eq_false_iff, ne_eq, recordMatches_entryLine demoEnv demoEnv_readsRecords]
    intro heq
    have hnames := congrArg (fun e => e.deps.map IndexDep.name) heq
    exact absurd hnames (by decide +kernel)

end CargoRegistry
end Aivcs
