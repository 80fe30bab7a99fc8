import Aivcs.Ci.Snapshot
import Aivcs.NixEnv.Normalize

/-!
# NixEnv.Logic — the hash of Rust sources

`generate_logic_hash` collects the `.rs` files below a directory, puts them in the order of their paths and digests
of each its path, a NUL, its normalised content and a NUL.

* `generateLogicHash_identifies` — the order in which directories are listed does not show in the hash; and where
  no source holds a NUL and paths are UTF-8, it is the hash of the normalised sources under their paths.
-/

namespace Aivcs
namespace NixEnv

open Aivcs.Lib
open Aivcs.Ci (Leaf)

/-! ## The file system -/

/-- A file or a directory; names are bytes. -/
abbrev Node := DirTree Leaf Bytes

/-- `Path::is_dir`. -/
def isDir : Node → Bool
  | .dir _ => true
  | .leaf .closedDir => true
  | .leaf _ => false

/-- What `fs::read` gives, where `Path::is_file`. -/
def readFile : Node → Option (Option Bytes)
  | .leaf (.file content) => some content
  | _ => none

def toStringLossy (bytes : Bytes) : String :=
  String.ofList (fromUtf8Lossy bytes)

/-- The path below the root. -/
def joinPath (path : List Bytes) : Bytes :=
  [47].intercalate path

/-- Paths are ordered by their components, and these by their bytes. -/
def pathKey (path : List Bytes) : List (List Nat) :=
  path.map fun name => name.map UInt8.toNat

/-- `Path::extension`: what is behind the last dot, if something is in front of it. -/
def extension? (name : Bytes) : Option Bytes :=
  if name = [46, 46] then none
  else
    match name.reverse.dropWhile fun b => b ≠ 46 with
    | [] => none
    | _ :: stem => if stem = [] then none else some (name.reverse.takeWhile fun b => b ≠ 46).reverse

/-! ## Collecting sources -/

/-- Hidden files, the target directory and other directories without sources. -/
def isSkipped (name : Bytes) : Bool :=
  (fromUtf8Lossy name).head? = some '.' ||
    ["target", "node_modules", ".git"].contains (toStringLossy name)

/-- The extension is `rs`. -/
def isRust (name : Bytes) : Bool :=
  extension? name = some [114, 115]

mutual

/-- The sources below a directory that is at `rel` itself, each with what reading it gives. -/
def collectRustFilesRecursive : Node → List Bytes → Option (List (List Bytes × Option Bytes))
  | .dir entries, rel => collectRustEntries entries rel
  -- `read_dir` fails
  | .leaf .closedDir, _ => none
  | .leaf _, _ => some []

def collectRustEntries : List (Bytes × Node) → List Bytes → Option (List (List Bytes × Option Bytes))
  | [], _ => some []
  | (name, node) :: entries, rel =>
      if isSkipped name then
        collectRustEntries entries rel
      else
        match readFile node with
        | some content => do
            let files ← collectRustEntries entries rel
            return if isRust name then (rel ++ [name], content) :: files else files
        | none =>
            if isDir node then do
              let below ← collectRustFilesRecursive node (rel ++ [name])
              let files ← collectRustEntries entries rel
              return below ++ files
            else
              collectRustEntries entries rel

end

def collectRustFiles (dir : Node) : Option (List (List Bytes × Option Bytes)) :=
  collectRustFilesRecursive dir []

/-- What is digested of one source. -/
def sourceInput (path : List Bytes) (content : Bytes) : Bytes :=
  utf8 (toStringLossy (joinPath path)) ++ 0 :: (normalizeSource content ++ [0])

/-- What is digested of a directory. -/
def hashRustDirectory (dir : Node) : Option Bytes := do
  let entries ← collectRustFiles dir
  let inputs ← (sortBy (fun entry => pathKey entry.1) entries).mapM fun entry =>
    entry.2.map (sourceInput entry.1)
  return inputs.flatten

/-- What is digested of a single file, under its name. -/
def hashRustFile (fileName : Option Bytes) (content : Option Bytes) : Option Bytes := do
  let content ← content
  let name := (fileName.map fun name => utf8 (toStringLossy name) ++ [0]).getD []
  return name ++ (normalizeSource content ++ [0])

def generateLogicHash (sha256Hex : Bytes → String) (fileName : Option Bytes) (source : Node) : Option String :=
  match readFile source with
  | some content => (hashRustFile fileName content).map sha256Hex
  | none => if isDir source then (hashRustDirectory source).map sha256Hex else none

/-! ## Directories of sources -/

/-- A name of a directory entry. -/
def IsName (name : Bytes) : Prop :=
  name ≠ [] ∧ (47 : UInt8) ∉ name ∧ (0 : UInt8) ∉ name

instance (name : Bytes) : Decidable (IsName name) :=
  inferInstanceAs (Decidable (_ ∧ _))

/-- A directory; files and directories below it need not be readable. -/
structure SourceDir where
  entries : List (Bytes × Node)
  wellFormed : (DirTree.dir entries).WellFormed IsName fun _ => True

/-- The last name of the path has the extension. -/
def isRustPath (path : List Bytes) : Bool :=
  path.getLast?.any isRust

namespace SourceDir

variable (d d' : SourceDir)

def tree : Node :=
  .dir d.entries

/-- A visible source with this content. -/
def HasFile (path : List Bytes) (content : Bytes) : Prop :=
  d.tree.LeafAt path (.file (some content)) ∧ (∀ name ∈ path, isSkipped name = false) ∧ isRustPath path = true

/-- There are the same visible sources, with equal normalised contents path by path. -/
def SameSources : Prop :=
  ∀ path text, (∃ content, d.HasFile path content ∧ normalizeSource content = text) ↔
    ∃ content, d'.HasFile path content ∧ normalizeSource content = text

/-- No visible source holds a NUL, and the names on the way to it are UTF-8. -/
def Plain : Prop :=
  ∀ path content, d.HasFile path content →
    (0 : UInt8) ∉ content ∧ ∀ name ∈ path, ∃ text : String, utf8 text = name

end SourceDir

/-! ## Collecting what is visible -/

/-- The leaves that no skipped name leads to. -/
def visibleLeaves (node : Node) : List (List Bytes × Leaf) :=
  node.leaves fun name => !isSkipped name

def isClosed : Leaf → Bool
  | .closedDir => true
  | _ => false

/-- A visible directory cannot be read. -/
def hidesSources (node : Node) : Bool :=
  (visibleLeaves node).any fun f => isClosed f.2

/-- A leaf as a source. -/
def rustFile? : List Bytes × Leaf → Option (List Bytes × Option Bytes)
  | (path, .file content) => if isRustPath path then some (path, content) else none
  | _ => none

/-- The visible sources with the names of their paths. -/
def rustFiles (node : Node) : List (List Bytes × Option Bytes) :=
  (visibleLeaves node).filterMap rustFile?

theorem mem_visibleLeaves {node : Node} {path : List Bytes} {leaf : Leaf} :
    (path, leaf) ∈ visibleLeaves node ↔ node.LeafAt path leaf ∧ ∀ name ∈ path, isSkipped name = false := by
  rw [visibleLeaves, DirTree.mem_leaves]
  simp

theorem mem_rustFiles {node : Node} {path : List Bytes} {content : Option Bytes} :
    (path, content) ∈ rustFiles node ↔
      node.LeafAt path (.file content) ∧ (∀ name ∈ path, isSkipped name = false) ∧ isRustPath path = true := by
  rw [rustFiles, List.mem_filterMap]
  constructor
  · rintro ⟨⟨path', leaf⟩, hmem, hfile⟩
    cases leaf with
    | file content' =>
        rw [rustFile?] at hfile
        split_ifs at hfile with hrust
        obtain ⟨rfl, rfl⟩ := Prod.mk.inj (Option.some.inj hfile)
        rcases mem_visibleLeaves.1 hmem with ⟨hleaf, hnames⟩
        exact ⟨hleaf, hnames, hrust⟩
    | closedDir => cases hfile
    | other => cases hfile
  · rintro ⟨hleaf, hnames, hrust⟩
    exact ⟨(path, .file content), mem_visibleLeaves.2 ⟨hleaf, hnames⟩, if_pos hrust⟩

theorem hidesSources_iff {node : Node} :
    hidesSources node = true ↔ ∃ path, node.LeafAt path .closedDir ∧ ∀ name ∈ path, isSkipped name = false := by
  rw [hidesSources, List.any_eq_true]
  constructor
  · rintro ⟨⟨path, leaf⟩, hmem, hclosed⟩
    cases leaf with
    | file content => cases hclosed
    | closedDir => exact ⟨path, mem_visibleLeaves.1 hmem⟩
    | other => cases hclosed
  · rintro ⟨path, h⟩
    exact ⟨(path, .closedDir), mem_visibleLeaves.2 h, rfl⟩

/-- The leaves of one entry more. -/
theorem visibleLeaves_cons (name : Bytes) (node : Node) (entries : List (Bytes × Node)) :
    visibleLeaves (.dir ((name, node) :: entries)) =
      (if isSkipped name then [] else (visibleLeaves node).map fun f => (name :: f.1, f.2)) ++
        visibleLeaves (.dir entries) := by
  cases hskip : isSkipped name with
  | true => simp [visibleLeaves, DirTree.leaves, DirTree.leavesIn, hskip]
  | false => simp [visibleLeaves, DirTree.leaves, DirTree.leavesIn, hskip]

/-- Below a name, what is a source stays one; the name alone makes a file one. -/
theorem rustFile?_cons {name : Bytes} {path : List Bytes} {leaf : Leaf} (h : path ≠ []) :
    rustFile? (name :: path, leaf) = (rustFile? (path, leaf)).map fun f => (name :: f.1, f.2) := by
  cases leaf with
  | file content =>
      rw [rustFile?, rustFile?, isRustPath, isRustPath, List.getLast?_cons_of_ne_nil h]
      split_ifs
      · rfl
      · rfl
  | closedDir => rfl
  | other => rfl

theorem hidesSources_cons (name : Bytes) (node : Node) (entries : List (Bytes × Node)) :
    hidesSources (.dir ((name, node) :: entries)) =
      ((!isSkipped name && hidesSources node) || hidesSources (.dir entries)) := by
  rw [hidesSources, visibleLeaves_cons, List.any_append]
  cases isSkipped name with
  | true => rfl
  | false => simp [hidesSources, Function.comp_def]

/-- The sources of one entry that is not skipped. -/
def entryFiles (name : Bytes) (node : Node) : List (List Bytes × Option Bytes) :=
  match readFile node with
  | some content => if isRust name then [([name], content)] else []
  | none => (rustFiles node).map fun f => (name :: f.1, f.2)

theorem rustFiles_cons (name : Bytes) (node : Node) (entries : List (Bytes × Node)) :
    rustFiles (.dir ((name, node) :: entries)) =
      (if isSkipped name then [] else entryFiles name node) ++ rustFiles (.dir entries) := by
  rw [rustFiles, visibleLeaves_cons, List.filterMap_append]
  cases isSkipped name with
  | true => rfl
  | false =>
      have hentry : ((visibleLeaves node).map fun f => (name :: f.1, f.2)).filterMap rustFile? =
          entryFiles name node := by
        match node with
        | .leaf (.file content) =>
            cases hrust : isRust name with
            | true => simp [entryFiles, readFile, visibleLeaves, DirTree.leaves, rustFile?, isRustPath, hrust]
            | false => simp [entryFiles, readFile, visibleLeaves, DirTree.leaves, rustFile?, isRustPath, hrust]
        | .leaf .closedDir => rfl
        | .leaf .other => rfl
        | .dir below =>
            have hfiles : entryFiles name (.dir below) =
                (rustFiles (.dir below)).map fun f => (name :: f.1, f.2) := rfl
            -- A path below a directory has a last name already, and keeps it.
            rw [hfiles, List.filterMap_map, rustFiles, List.map_filterMap]
            refine List.filterMap_congr fun f hf => ?_
            have hne : f.1 ≠ [] := by
              intro hnil
              have hleaf := (mem_visibleLeaves.1 hf).1
              rw [hnil] at hleaf
              exact DirTree.not_leafAt_dir_nil hleaf
            exact rustFile?_cons hne
      exact congrArg (· ++ rustFiles (.dir entries)) hentry

/-- What is collected below `rel`: the visible sources, under their whole paths. -/
def collected (rel : List Bytes) (files : List (List Bytes × Option Bytes)) : List (List Bytes × Option Bytes) :=
  files.map fun f => (rel ++ f.1, f.2)

theorem collectRustEntries_eq {entries : List (Bytes × Node)}
    (hbelow : ∀ e ∈ entries, ∀ rel, collectRustFilesRecursive e.2 rel =
      if hidesSources e.2 then none else some (collected rel (rustFiles e.2))) (rel : List Bytes) :
    collectRustEntries entries rel =
      if hidesSources (.dir entries) then none else some (collected rel (rustFiles (.dir entries))) := by
  induction entries with
  | nil => rfl
  | cons e entries ih =>
      rcases e with ⟨name, node⟩
      rw [List.forall_mem_cons] at hbelow
      rw [collectRustEntries, hidesSources_cons, rustFiles_cons, ih hbelow.2]
      -- The loop skips an entry by its name; of the others a directory that cannot be read ends it, here or
      -- further on.
      cases hskip : isSkipped name with
      | true => rfl
      | false =>
          cases hidesSources (.dir entries) with
          | true =>
              match node with
              | .leaf (.file content) => simp [readFile]
              | .leaf .closedDir => simp [readFile, isDir]
              | .leaf .other => simp [readFile, isDir]
              | .dir below => simp [readFile, isDir]
          | false =>
              match node with
              | .leaf (.file content) =>
                  cases hrust : isRust name with
                  | true =>
                      simp [readFile, entryFiles, collected, hrust, hidesSources, visibleLeaves, DirTree.leaves,
                        isClosed]
                  | false =>
                      simp [readFile, entryFiles, collected, hrust, hidesSources, visibleLeaves, DirTree.leaves,
                        isClosed]
              | .leaf .closedDir =>
                  simp [readFile, isDir, collectRustFilesRecursive, hidesSources, visibleLeaves, DirTree.leaves,
                    isClosed]
              | .leaf .other =>
                  simp [readFile, isDir, entryFiles, collected, rustFiles, hidesSources, visibleLeaves, DirTree.leaves,
                    isClosed, rustFile?]
              | .dir below =>
                  have hnode := hbelow.1 (rel ++ [name])
                  simp only [readFile, isDir, if_true, entryFiles]
                  rw [hnode]
                  cases hidesSources (.dir below) with
                  | true => rfl
                  | false => simp [collected, Function.comp_def]

/-- A directory is collected unless a visible one cannot be read. -/
theorem collectRustFilesRecursive_eq {node : Node} (h : node.WellFormed IsName fun _ => True) (rel : List Bytes) :
    collectRustFilesRecursive node rel =
      if hidesSources node then none else some (collected rel (rustFiles node)) := by
  induction h generalizing rel with
  | @leaf leaf _ => cases leaf <;> rfl
  | dir _ _ _ ih =>
      rw [collectRustFilesRecursive]
      exact collectRustEntries_eq (fun e he rel => ih e he rel) rel

/-! ## The order of the sources -/

theorem pathKey_injective : Function.Injective pathKey := by
  have hbytes : Function.Injective fun name : Bytes => name.map UInt8.toNat :=
    List.map_injective_iff.2 fun _ _ => UInt8.toNat_inj.1
  exact List.map_injective_iff.2 hbytes

theorem nodup_rustFiles {node : Node} (h : node.WellFormed IsName fun _ => True) :
    ((rustFiles node).map Prod.fst).Nodup := by
  -- Sources are leaves under the same paths, some leaves left out.
  have hsub : ((rustFiles node).map Prod.fst).Sublist ((visibleLeaves node).map Prod.fst) := by
    unfold rustFiles
    generalize visibleLeaves node = leaves
    induction leaves with
    | nil => exact List.Sublist.refl _
    | cons f leaves ih =>
        cases hf : rustFile? f with
        | none => simpa [hf] using ih.cons f.1
        | some file =>
            have hpath : file.1 = f.1 := by
              rcases f with ⟨path, leaf⟩
              cases leaf with
              | file content =>
                  rw [rustFile?] at hf
                  split_ifs at hf
                  exact (congrArg Prod.fst (Option.some.inj hf)).symm
              | closedDir => cases hf
              | other => cases hf
            simpa [hf, hpath] using ih
  exact (DirTree.nodup_leaves h).sublist hsub

theorem nodup_pathKey {node : Node} (h : node.WellFormed IsName fun _ => True) :
    ((rustFiles node).map fun f => pathKey f.1).Nodup := by
  have hkeys := (nodup_rustFiles h).map pathKey_injective
  rwa [List.map_map] at hkeys

namespace SourceDir

variable {d d' : SourceDir} {path : List Bytes} {content : Bytes}

/-- The visible sources in the order of their paths. -/
def files (d : SourceDir) : List (List Bytes × Option Bytes) :=
  sortBy (fun f => pathKey f.1) (rustFiles d.tree)

/-- What is read of the visible sources, in the order of their paths. -/
def sources (d : SourceDir) : List (List Bytes × Bytes) :=
  d.files.filterMap fun f => f.2.map fun content => (f.1, content)

theorem hashRustDirectory_eq (d : SourceDir) :
    hashRustDirectory d.tree =
      if hidesSources d.tree then none
      else (d.files.mapM fun (f : List Bytes × Option Bytes) => f.2.map (sourceInput f.1)).map List.flatten := by
  have hcollected : collected [] (rustFiles d.tree) = rustFiles d.tree := by
    rw [collected]
    exact List.map_id _
  have hcollect : collectRustFilesRecursive d.tree [] =
      if hidesSources d.tree then none else some (collected [] (rustFiles d.tree)) :=
    collectRustFilesRecursive_eq d.wellFormed []
  rw [hcollected] at hcollect
  unfold hashRustDirectory collectRustFiles
  rw [hcollect]
  split_ifs
  · rfl
  · exact (Option.map_eq_bind ..).symm

theorem generateLogicHash_eq (sha256Hex : Bytes → String) (d : SourceDir) (fileName : Option Bytes) :
    generateLogicHash sha256Hex fileName d.tree = (hashRustDirectory d.tree).map sha256Hex := rfl

/-- Listing directories in another order changes neither what is collected nor whether it can be. -/
theorem hashRustDirectory_relisted (h : d.tree.Relisted d'.tree) :
    hashRustDirectory d.tree = hashRustDirectory d'.tree := by
  have hhides : hidesSources d.tree = hidesSources d'.tree := by
    rw [Bool.eq_iff_iff, hidesSources_iff, hidesSources_iff]
    simp only [h.leafAt_iff]
  have hfiles : d.files = d'.files := by
    have hnodup : ∀ d : SourceDir, (rustFiles d.tree).Nodup := fun d => (nodup_rustFiles d.wellFormed).of_map
    -- The same members, each once, under distinct keys: one sorted list.
    refine sortBy_eq_of_perm ((List.perm_ext_iff_of_nodup (hnodup d) (hnodup d')).2 ?_) (nodup_pathKey d.wellFormed)
    rintro ⟨path, content⟩
    rw [mem_rustFiles, mem_rustFiles, h.leafAt_iff]
  rw [hashRustDirectory_eq, hashRustDirectory_eq, hhides, hfiles]

/-- When there is a hash, every source was read. -/
theorem hashRustDirectory_eq_some {input : Bytes} (h : hashRustDirectory d.tree = some input) :
    input = d.sources.flatMap fun f => sourceInput f.1 f.2 := by
  rw [hashRustDirectory_eq] at h
  split_ifs at h
  rcases Option.map_eq_some_iff.1 h with ⟨inputs, hinputs, rfl⟩
  unfold sources
  clear h
  generalize d.files = files at hinputs ⊢
  induction files generalizing inputs with
  | nil =>
      cases hinputs
      rfl
  | cons f files ih =>
      rw [List.mapM_cons] at hinputs
      rcases Option.bind_eq_some_iff.1 hinputs with ⟨first, hfirst, hinputs⟩
      rcases Option.bind_eq_some_iff.1 hinputs with ⟨rest, hrest, hinputs⟩
      rcases Option.map_eq_some_iff.1 hfirst with ⟨content, hcontent, rfl⟩
      cases hinputs
      rw [List.flatten_cons, ih rest hrest]
      simp [hcontent]

theorem mem_sources : (path, content) ∈ d.sources ↔ d.HasFile path content := by
  simp only [sources, List.mem_filterMap, Option.map_eq_some_iff, Prod.mk.injEq]
  constructor
  · rintro ⟨⟨path', content'⟩, hmem, content'', rfl, rfl, rfl⟩
    exact mem_rustFiles.1 (mem_sortBy.1 hmem)
  · intro h
    exact ⟨(path, some content), mem_sortBy.2 (mem_rustFiles.2 h), content, rfl, rfl, rfl⟩

theorem pairwise_sources (d : SourceDir) : d.sources.Pairwise fun f g => pathKey f.1 < pathKey g.1 := by
  have hsorted := pairwise_lt_sortBy (nodup_pathKey d.wellFormed)
  refine List.Pairwise.filterMap _ ?_ hsorted
  rintro f g hlt f' hf' g' hg'
  rcases Option.map_eq_some_iff.1 hf' with ⟨_, _, rfl⟩
  rcases Option.map_eq_some_iff.1 hg' with ⟨_, _, rfl⟩
  exact hlt

/-- The sources as they are hashed. -/
def normalized (d : SourceDir) : List (List Bytes × Bytes) :=
  d.sources.map fun f => (f.1, normalizeSource f.2)

/-- Normalised sources under their paths make one list. -/
theorem normalized_eq_iff : d.normalized = d'.normalized ↔ d.SameSources d' := by
  have hmem : ∀ (d : SourceDir) path text, (path, text) ∈ d.normalized ↔
      ∃ content, d.HasFile path content ∧ normalizeSource content = text := by
    intro d path text
    rw [normalized, List.mem_map]
    constructor
    · rintro ⟨⟨path', content⟩, hsource, heq⟩
      obtain ⟨rfl, rfl⟩ := Prod.mk.inj heq
      exact ⟨content, mem_sources.1 hsource, rfl⟩
    · rintro ⟨content, hfile, rfl⟩
      exact ⟨(path, content), mem_sources.2 hfile, rfl⟩
  have hsorted : ∀ d : SourceDir, d.normalized.Pairwise fun f g => pathKey f.1 < pathKey g.1 :=
    fun d => List.pairwise_map.2 d.pairwise_sources
  constructor
  · intro h path text
    rw [← hmem, ← hmem, h]
  · intro h
    -- Sorted by keys that differ, lists of the same members are the same.
    have hnodup : ∀ d : SourceDir, d.normalized.Nodup := fun d =>
      (hsorted d).imp fun hlt heq => absurd (heq ▸ hlt) (lt_irrefl _)
    refine eq_of_perm_of_pairwise_lt ((List.perm_ext_iff_of_nodup (hnodup d) (hnodup d')).2 ?_) (hsorted d)
      (hsorted d')
    rintro ⟨path, text⟩
    rw [hmem, hmem]
    exact h path text

end SourceDir

/-! ## What is digested -/

section Paths

variable {path path' : List Bytes}

theorem utf8_toStringLossy (text : String) : utf8 (toStringLossy (utf8 text)) = utf8 text := by
  rw [toStringLossy, fromUtf8Lossy_utf8, String.ofList_toList]

/-- A path of UTF-8 names is shown as it is. -/
theorem utf8_toStringLossy_joinPath (h : ∀ name ∈ path, ∃ text : String, utf8 text = name) :
    utf8 (toStringLossy (joinPath path)) = joinPath path := by
  have htext : ∃ text : String, utf8 text = joinPath path := by
    induction path with
    | nil => exact ⟨"", rfl⟩
    | cons name path ih =>
        rw [List.forall_mem_cons] at h
        rcases h.1 with ⟨first, rfl⟩
        rcases ih h.2 with ⟨rest, hrest⟩
        by_cases hnil : path = []
        · exact ⟨first, by rw [hnil]; exact List.intercalate_singleton.symm⟩
        · refine ⟨first ++ ("/" ++ rest), ?_⟩
          rw [utf8_append, utf8_append, hrest, joinPath, joinPath, List.intercalate_cons_of_ne_nil hnil,
            List.append_assoc]
          rfl
  rcases htext with ⟨text, htext⟩
  rw [← htext, utf8_toStringLossy]

theorem splitOn_joinPath (hne : path ≠ []) (h : ∀ name ∈ path, IsName name) : (joinPath path).splitOn 47 = path :=
  List.splitOn_intercalate 47 (fun name hname => (h name hname).2.1) hne

theorem nul_not_mem_joinPath (hne : path ≠ []) (h : ∀ name ∈ path, IsName name) :
    (0 : UInt8) ∉ joinPath path := by
  intro hmem
  -- A NUL is not the separator, so it is in one of the names.
  rcases exists_mem_splitOn hmem (show (0 : UInt8) ≠ 47 by decide) with ⟨name, hname, hnul⟩
  rw [splitOn_joinPath hne h] at hname
  exact (h name hname).2.2 hnul

end Paths

/-- A path of names, shown as it is. -/
structure PlainPath (path : List Bytes) : Prop where
  ne_nil : path ≠ []
  names : ∀ name ∈ path, IsName name
  utf8 : ∀ name ∈ path, ∃ text : String, utf8 text = name

/-- Paths and contents by turns. -/
def piecesOf (files : List (List Bytes × Bytes)) : List Bytes :=
  files.flatMap fun f => [joinPath f.1, f.2]

theorem eq_of_piecesOf_eq {fs gs : List (List Bytes × Bytes)} (hf : ∀ f ∈ fs, PlainPath f.1)
    (hg : ∀ g ∈ gs, PlainPath g.1) (h : piecesOf fs = piecesOf gs) : fs = gs := by
  induction fs generalizing gs with
  | nil =>
      cases gs with
      | nil => rfl
      | cons g gs => cases h
  | cons f fs ih =>
      cases gs with
      | nil => cases h
      | cons g gs =>
          rw [List.forall_mem_cons] at hf hg
          rcases List.cons.inj h with ⟨hjoined, hrest⟩
          rcases List.cons.inj hrest with ⟨htext, hrest⟩
          -- Names hold no slash, so a path is read back from its text.
          have hpath : f.1 = g.1 := by
            rw [← splitOn_joinPath hf.1.ne_nil hf.1.names, hjoined, splitOn_joinPath hg.1.ne_nil hg.1.names]
          rw [Prod.ext hpath htext, ih hf.2 hg.2 hrest]

namespace SourceDir

variable {d d' : SourceDir}

theorem Plain.path (h : d.Plain) {f : List Bytes × Bytes} (hf : f ∈ d.sources) : PlainPath f.1 := by
  have hfile := mem_sources.1 hf
  refine ⟨?_, d.wellFormed.isName_of_leafAt hfile.1, (h _ _ hfile).2⟩
  intro hnil
  have hleaf := hfile.1
  rw [hnil] at hleaf
  exact DirTree.not_leafAt_dir_nil hleaf

theorem Plain.normalized_path (h : d.Plain) : ∀ f ∈ d.normalized, PlainPath f.1 := by
  intro f hf
  rcases List.mem_map.1 hf with ⟨source, hsource, rfl⟩
  have hpath : PlainPath source.1 := h.path hsource
  exact hpath

theorem Plain.nul_not_mem_pieces (h : d.Plain) : ∀ piece ∈ piecesOf d.normalized, (0 : UInt8) ∉ piece := by
  intro piece hpiece
  rcases List.mem_flatMap.1 hpiece with ⟨f, hf, hpiece⟩
  rcases List.mem_map.1 hf with ⟨source, hsource, rfl⟩
  have hpath := h.path hsource
  rcases List.mem_cons.1 hpiece with rfl | hpiece
  · exact nul_not_mem_joinPath hpath.ne_nil hpath.names
  · rw [List.mem_singleton.1 hpiece]
    exact nul_not_mem_normalizeSource (h _ _ (mem_sources.1 hsource)).1

/-- Each piece is ended by a NUL. -/
theorem Plain.input_eq (h : d.Plain) :
    (d.sources.flatMap fun f => sourceInput f.1 f.2) = (piecesOf d.normalized).flatMap fun piece => piece ++ [0] := by
  rw [piecesOf, normalized, List.flatMap_map, List.flatMap_assoc]
  refine List.flatMap_congr fun f hf => ?_
  rw [sourceInput, utf8_toStringLossy_joinPath (h.path hf).utf8]
  simp

end SourceDir

/-- Directories listed in other orders have one hash.  Where no source holds a NUL and the names are UTF-8, hashes
are equal exactly when the same sources are visible, normalised alike. -/
theorem generateLogicHash_identifies (sha256Hex : Bytes → String) (fileName fileName' : Option Bytes)
    (d d' : SourceDir) :
    (d.tree.Relisted d'.tree →
      generateLogicHash sha256Hex fileName d.tree = generateLogicHash sha256Hex fileName' d'.tree) ∧
    (Function.Injective sha256Hex → d.Plain → d'.Plain → ∀ hash hash',
      generateLogicHash sha256Hex fileName d.tree = some hash →
      generateLogicHash sha256Hex fileName' d'.tree = some hash' → (hash = hash' ↔ d.SameSources d')) := by
  constructor
  · intro h
    rw [SourceDir.generateLogicHash_eq, SourceDir.generateLogicHash_eq, SourceDir.hashRustDirectory_relisted h]
  · intro hsha hplain hplain' hash hash' hhash hhash'
    rw [SourceDir.generateLogicHash_eq] at hhash hhash'
    rcases Option.map_eq_some_iff.1 hhash with ⟨input, hinput, rfl⟩
    rcases Option.map_eq_some_iff.1 hhash' with ⟨input', hinput', rfl⟩
    rw [hsha.eq_iff, SourceDir.hashRustDirectory_eq_some hinput, SourceDir.hashRustDirectory_eq_some hinput',
      hplain.input_eq, hplain'.input_eq, ← SourceDir.normalized_eq_iff]
    constructor
    · intro heq
      have hpieces := flatMap_concat_inj hplain.nul_not_mem_pieces hplain'.nul_not_mem_pieces heq
      exact eq_of_piecesOf_eq hplain.normalized_path hplain'.normalized_path hpieces
    · intro heq
      rw [heq]

/-! ## Sources that are normalised alike -/

def unixSources : SourceDir where
  entries := [([97, 46, 114, 115], .leaf (.file (some [120]))), ([98, 46, 114, 115], .leaf (.file (some [121, 10])))]
  wellFormed := .dir (by decide) (by decide +kernel)
    (List.forall_mem_cons.2 ⟨.leaf trivial, List.forall_mem_singleton.2 (.leaf trivial)⟩)

def unixSourcesReversed : SourceDir where
  entries := [([98, 46, 114, 115], .leaf (.file (some [121, 10]))), ([97, 46, 114, 115], .leaf (.file (some [120])))]
  wellFormed := .dir (by decide) (by decide +kernel)
    (List.forall_mem_cons.2 ⟨.leaf trivial, List.forall_mem_singleton.2 (.leaf trivial)⟩)

/-- White space and line ends differ, and there is a directory that is not looked into. -/
def windowsSources : SourceDir where
  entries := [([46, 103, 105, 116], .leaf .closedDir), ([98, 46, 114, 115], .leaf (.file (some [121, 13, 10]))),
    ([97, 46, 114, 115], .leaf (.file (some [120, 32, 13, 10])))]
  wellFormed := .dir (by decide) (by decide +kernel)
    (List.forall_mem_cons.2 ⟨.leaf trivial,
      List.forall_mem_cons.2 ⟨.leaf trivial, List.forall_mem_singleton.2 (.leaf trivial)⟩⟩)

/-- A digest without collisions that is SHA-256 on what is digested of these sources. -/
def sampleSha256Hex : Bytes → String :=
  tableDigest [([97, 46, 114, 115, 0, 120, 10, 0, 98, 46, 114, 115, 0, 121, 10, 0],
    "ab4550c2678129e701e0ca74e1b8b85ed126d20b57c251c9d9553d302c956ffa")]

theorem sampleSha256Hex_injective : Function.Injective sampleSha256Hex :=
  tableDigest_injective (by decide +kernel) (by decide +kernel)

/-- Names are checked by showing them. -/
theorem plain_of_sources {d : SourceDir}
    (h : ∀ f ∈ d.sources, (0 : UInt8) ∉ f.2 ∧ ∀ name ∈ f.1, utf8 (toStringLossy name) = name) : d.Plain := by
  intro path content hfile
  rcases h _ (SourceDir.mem_sources.2 hfile) with ⟨hnul, hnames⟩
  exact ⟨hnul, fun name hname => ⟨_, hnames name hname⟩⟩

theorem unixSources_identified :
    generateLogicHash sampleSha256Hex none unixSources.tree =
        generateLogicHash sampleSha256Hex none unixSourcesReversed.tree ∧
      generateLogicHash sampleSha256Hex none unixSources.tree =
        some "ab4550c2678129e701e0ca74e1b8b85ed126d20b57c251c9d9553d302c956ffa" ∧
      unixSources.SameSources windowsSources := by
  have hhash : generateLogicHash sampleSha256Hex none unixSources.tree =
      some "ab4550c2678129e701e0ca74e1b8b85ed126d20b57c251c9d9553d302c956ffa" := by
    decide +kernel
  have hhash' : generateLogicHash sampleSha256Hex none windowsSources.tree =
      some "ab4550c2678129e701e0ca74e1b8b85ed126d20b57c251c9d9553d302c956ffa" := by
    decide +kernel
  refine ⟨?_, hhash, ?_⟩
  · exact (generateLogicHash_identifies _ none none unixSources unixSourcesReversed).1 (.perm (List.Perm.swap _ _ _))
  · exact ((generateLogicHash_identifies _ none none unixSources windowsSources).2 sampleSha256Hex_injective
      (plain_of_sources (by decide +kernel)) (plain_of_sources (by decide +kernel)) _ _ hhash hhash').1 rfl

end NixEnv
end Aivcs
