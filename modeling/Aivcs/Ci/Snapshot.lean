import Aivcs.Lib.DirTree
import Aivcs.Lib.Digest
import Aivcs.Lib.SortBy
import Mathlib.Data.List.Lex
import Mathlib.Data.String.Basic
import Mathlib.Logic.Relation

/-!
# Ci.Snapshot — the hash of a workspace

`compute_workspace_hash` digests the visible files below a directory: of each its path, a NUL byte, its
content and a NUL byte, in the order of the paths.  A NUL in a content looks like one of these, so what is
digested says where the NULs are and not where a file begins: files that are run together, each content with
the path and the content of the next one behind it, are digested as before.
-/

namespace Aivcs
namespace Ci

open Lib

/-! ## Collecting files -/

/-- What is not a directory with a listing. -/
inductive Leaf where
  /-- a file, with its content if that can be read -/
  | file (content : Option Bytes)
  /-- a directory that cannot be read -/
  | closedDir
  /-- neither a file nor a directory -/
  | other

abbrev Node := DirTree Leaf

/-- `Path::is_dir`. -/
def isDir : Node → Bool
  | .dir _ => true
  | .leaf .closedDir => true
  | .leaf _ => false

/-- What `fs::read` gives, where `Path::is_file`. -/
def readFile : Node → Option (Option Bytes)
  | .leaf (.file content) => some content
  | _ => none

/-- Hidden names other than that of the configuration, and directories that hold no sources. -/
def isSkipped (name : String) : Bool :=
  (name.toList.head? = some '.' && name != ".local-ci.toml") ||
    ["target", "node_modules", "dist", ".git", ".local-ci-cache", ".direnv"].contains name

/-- A path below the root as a text. -/
def relPath (path : List String) : String :=
  "/".intercalate path

mutual

/-- The files below a directory that is at `rel` itself, each with what reading it gives. -/
def collectFilesRecursive : Node → List String → Option (List (String × Option Bytes))
  | .dir entries, rel => collectEntries entries rel
  | .leaf .closedDir, _ => none
  | .leaf _, _ => some []

def collectEntries : List (String × Node) → List String → Option (List (String × Option Bytes))
  | [], _ => some []
  | (name, node) :: entries, rel =>
      if isSkipped name then
        collectEntries entries rel
      else if isDir node then do
        let below ← collectFilesRecursive node (rel ++ [name])
        let files ← collectEntries entries rel
        return below ++ files
      else
        match readFile node with
        | some content => do
            let files ← collectEntries entries rel
            return (relPath (rel ++ [name]), content) :: files
        | none => collectEntries entries rel

end

/-- What is digested.  A file that cannot be read adds its path alone. -/
def hashInput (files : List (String × Option Bytes)) : Bytes :=
  files.flatMap fun file => utf8 file.1 ++ 0 :: (file.2.getD [] ++ [0])

/-- The order of texts by their characters is that of their UTF-8 bytes. -/
def computeWorkspaceHash (sha256Hex : Bytes → String) (dir : Node) : Option String := do
  let files ← collectFilesRecursive dir []
  return sha256Hex (hashInput (sortBy Prod.fst files))

/-! ## Workspaces -/

/-- The name of a directory entry. -/
def IsName (name : String) : Prop :=
  name ≠ "" ∧ '/' ∉ name.toList ∧ '\x00' ∉ name.toList

def Leaf.Readable : Leaf → Prop
  | .file content => content.isSome = true
  | .closedDir => False
  | .other => True

instance (name : String) : Decidable (IsName name) := by
  unfold IsName
  infer_instance

/-- A directory whose directories and files can all be read. -/
structure Workspace where
  entries : List (String × Node)
  wellFormed : (DirTree.dir entries).WellFormed IsName Leaf.Readable

namespace Workspace

variable (w w' : Workspace)

def tree : Node :=
  .dir w.entries

/-- A file with a path on which no name is skipped. -/
def HasFile (path : List String) (content : Bytes) : Prop :=
  w.tree.LeafAt path (.file (some content)) ∧ ∀ name ∈ path, isSkipped name = false

def SameVisible : Prop :=
  ∀ path content, w.HasFile path content ↔ w'.HasFile path content

/-- No visible file holds a NUL byte. -/
def NulFree : Prop :=
  ∀ path content, w.HasFile path content → (0 : UInt8) ∉ content

end Workspace

/-! ## Collecting what is visible -/

def Leaf.content? : Leaf → Option Bytes
  | .file content => content
  | _ => none

/-- The visible files with the names of their paths. -/
def visibleFiles (node : Node) : List (List String × Bytes) :=
  (node.leaves fun name => !isSkipped name).filterMap fun f => f.2.content?.map fun content => (f.1, content)

theorem mem_visibleFiles {node : Node} {path : List String} {content : Bytes} :
    (path, content) ∈ visibleFiles node ↔
      node.LeafAt path (.file (some content)) ∧ ∀ name ∈ path, isSkipped name = false := by
  have hleaf : ∀ leaf : Leaf, leaf.content? = some content ↔ leaf = .file (some content) := by
    intro leaf
    cases leaf <;> simp [Leaf.content?]
  have hkeep : (∀ name ∈ path, isSkipped name = false) ↔ ∀ name ∈ path, (!isSkipped name) = true := by
    simp
  rw [hkeep, ← DirTree.mem_leaves]
  simp [visibleFiles, hleaf]

theorem nodup_visibleFiles {node : Node} (h : node.WellFormed IsName Leaf.Readable) :
    ((visibleFiles node).map Prod.fst).Nodup := by
  have hsub : ((visibleFiles node).map Prod.fst).Sublist
      ((node.leaves fun name => !isSkipped name).map Prod.fst) := by
    unfold visibleFiles
    generalize node.leaves (fun name => !isSkipped name) = leaves
    induction leaves with
    | nil => exact List.Sublist.refl _
    | cons f leaves ih =>
        cases hf : f.2.content? with
        | none => simpa [hf] using ih.cons f.1
        | some content => simpa [hf] using ih
  exact (DirTree.nodup_leaves h).sublist hsub

/-- The visible files of one entry more. -/
theorem visibleFiles_cons (name : String) (node : Node) (entries : List (String × Node)) :
    visibleFiles (.dir ((name, node) :: entries)) =
      (if isSkipped name then [] else (visibleFiles node).map fun f => (name :: f.1, f.2)) ++
        visibleFiles (.dir entries) := by
  cases hskip : isSkipped name with
  | true => simp [visibleFiles, DirTree.leaves, DirTree.leavesIn, hskip]
  | false =>
      simp [visibleFiles, DirTree.leaves, DirTree.leavesIn, hskip, List.filterMap_map, List.map_filterMap,
        Function.comp_def]

/-- What is collected below `rel`: the visible files, under their whole paths. -/
def collected (rel : List String) (files : List (List String × Bytes)) : List (String × Option Bytes) :=
  files.map fun f => (relPath (rel ++ f.1), some f.2)

theorem collectEntries_eq {entries : List (String × Node)}
    (hread : ∀ e ∈ entries, e.2.WellFormed IsName Leaf.Readable)
    (hdirs : ∀ e ∈ entries, isDir e.2 = true → ∀ rel,
      collectFilesRecursive e.2 rel = some (collected rel (visibleFiles e.2))) (rel : List String) :
    collectEntries entries rel = some (collected rel (visibleFiles (.dir entries))) := by
  induction entries with
  | nil => rfl
  | cons e entries ih =>
      rcases e with ⟨name, node⟩
      rw [List.forall_mem_cons] at hread hdirs
      have hrest := ih hread.2 hdirs.2
      rw [collectEntries, visibleFiles_cons, hrest]
      cases hskip : isSkipped name with
      | true => rfl
      | false =>
          cases hdir : isDir node with
          | true =>
              rw [hdirs.1 hdir]
              simp [collected, Function.comp_def]
          | false =>
              -- A leaf that can be read adds its content, or is no file.
              match node, hread.1, hdir with
              | .leaf (.file (some content)), _, _ => rfl
              | .leaf (.file none), .leaf h, _ => cases h
              | .leaf .other, _, _ => rfl

/-- A directory that can be read is collected. -/
theorem collectFilesRecursive_eq {node : Node} (h : node.WellFormed IsName Leaf.Readable)
    (hdir : isDir node = true) (rel : List String) :
    collectFilesRecursive node rel = some (collected rel (visibleFiles node)) := by
  induction h generalizing rel with
  | @leaf leaf hread =>
      cases leaf with
      | file content => cases hdir
      | closedDir => cases hread
      | other => cases hdir
  | dir _ _ hbelow ih =>
      rw [collectFilesRecursive]
      exact collectEntries_eq hbelow (fun e he hdir rel => ih e he hdir rel) rel

/-! ## Paths as texts -/

/-- A path of names, at least one. -/
def IsPath (path : List String) : Prop :=
  path ≠ [] ∧ ∀ name ∈ path, IsName name

theorem splitOn_relPath {path : List String} (h : IsPath path) :
    (relPath path).toList.splitOn '/' = path.map String.toList := by
  have hslash : ∀ piece ∈ path.map String.toList, '/' ∉ piece := by
    intro piece hpiece
    rcases List.mem_map.1 hpiece with ⟨name, hname, rfl⟩
    exact (h.2 name hname).2.1
  have hne : path.map String.toList ≠ [] := fun heq => h.1 (List.map_eq_nil_iff.1 heq)
  rw [relPath, String.toList_intercalate]
  exact List.splitOn_intercalate '/' hslash hne

theorem relPath_inj {path path' : List String} (h : IsPath path) (h' : IsPath path')
    (heq : relPath path = relPath path') : path = path' := by
  have hsplit : path.map String.toList = path'.map String.toList := by
    rw [← splitOn_relPath h, ← splitOn_relPath h', heq]
  have hinj : Function.Injective String.toList := fun _ _ => String.toList_inj.1
  exact hinj.list_map hsplit

theorem nul_not_mem_utf8_relPath {path : List String} (h : IsPath path) :
    (0 : UInt8) ∉ utf8 (relPath path) := by
  intro hmem
  rw [← String.ofList_toList (s := relPath path)] at hmem
  have hnul := mem_of_mem_utf8_ofList (d := '\x00') (by decide) rfl hmem
  -- The character is not the separator, so it is in one of the names.
  rcases exists_mem_splitOn hnul (show '\x00' ≠ '/' by decide) with ⟨piece, hpiece, hnulpiece⟩
  rw [splitOn_relPath h] at hpiece
  rcases List.mem_map.1 hpiece with ⟨name, hname, rfl⟩
  exact (h.2 name hname).2.2 hnulpiece

/-! ## The order of the files -/

namespace Workspace

variable {w w' : Workspace} {path : List String} {content : Bytes}

/-- The visible files in the order of their paths. -/
def files (w : Workspace) : List (List String × Bytes) :=
  sortBy (fun f => relPath f.1) (visibleFiles w.tree)

@[simp] theorem mem_files : (path, content) ∈ w.files ↔ w.HasFile path content :=
  mem_sortBy.trans mem_visibleFiles

theorem HasFile.isPath (h : w.HasFile path content) : IsPath path := by
  refine ⟨?_, w.wellFormed.isName_of_leafAt h.1⟩
  rintro rfl
  exact DirTree.not_leafAt_dir_nil h.1

theorem isPath_of_mem_files {f : List String × Bytes} (h : f ∈ w.files) : IsPath f.1 :=
  (mem_files.1 h).isPath

theorem nodup_relPath (w : Workspace) :
    ((visibleFiles w.tree).map fun f => relPath f.1).Nodup := by
  have hpaths : ∀ path ∈ (visibleFiles w.tree).map Prod.fst, IsPath path := by
    intro path hpath
    rcases List.mem_map.1 hpath with ⟨f, hf, rfl⟩
    exact isPath_of_mem_files (w := w) (mem_sortBy.2 hf)
  have hnodup := (nodup_visibleFiles w.wellFormed).map_on fun path hpath path' hpath' =>
    relPath_inj (hpaths path hpath) (hpaths path' hpath')
  rw [List.map_map] at hnodup
  exact hnodup

/-- The list is made from what is visible and from nothing else. -/
theorem files_eq_iff : w.files = w'.files ↔ w.SameVisible w' := by
  constructor
  · intro h path content
    rw [← mem_files, ← mem_files, h]
  · intro h
    have hnodup : ∀ w : Workspace, (visibleFiles w.tree).Nodup :=
      fun w => (nodup_visibleFiles w.wellFormed).of_map
    -- The same members, each once, under distinct texts: one sorted list.
    refine sortBy_eq_of_perm ((List.perm_ext_iff_of_nodup (hnodup w) (hnodup w')).2 ?_) w.nodup_relPath
    rintro ⟨path, content⟩
    exact mem_visibleFiles.trans ((h path content).trans mem_visibleFiles.symm)

theorem SameVisible.of_relisted (h : w.tree.Relisted w'.tree) : w.SameVisible w' :=
  fun _ _ => and_congr_left' h.leafAt_iff

end Workspace

/-! ## Files that are run together -/

/-- The paths and what stands between the NULs of the contents. -/
def piecesOf (files : List (List String × Bytes)) : List Bytes :=
  files.flatMap fun f => utf8 (relPath f.1) :: f.2.splitOn 0

/-- A file takes the next one into its content: a NUL, the path, a NUL, the content. -/
inductive Absorbs : List (List String × Bytes) → List (List String × Bytes) → Prop where
  | mk (front rest : List (List String × Bytes)) (path next : List String) (content below : Bytes) :
      Absorbs (front ++ (path, content) :: (next, below) :: rest)
        (front ++ (path, content ++ 0 :: (utf8 (relPath next) ++ 0 :: below)) :: rest)

/-- The files of both can be run together into the same ones. -/
def RunTogether : List (List String × Bytes) → List (List String × Bytes) → Prop :=
  Relation.Join (Relation.ReflTransGen Absorbs)

theorem piecesOf_absorbs {fs gs : List (List String × Bytes)} (h : Absorbs fs gs)
    (hf : ∀ f ∈ fs, IsPath f.1) : piecesOf fs = piecesOf gs := by
  cases h with
  | mk front rest path next content below =>
      have hnext : (0 : UInt8) ∉ utf8 (relPath next) := nul_not_mem_utf8_relPath (hf (next, below) (by simp))
      have hsplit : (content ++ 0 :: (utf8 (relPath next) ++ 0 :: below)).splitOn 0 =
          content.splitOn 0 ++ utf8 (relPath next) :: below.splitOn 0 := by
        rw [List.splitOn_append_cons_self, List.splitOn_append_cons_self_of_not_mem hnext]
      simp [piecesOf, hsplit]

/-- Paths are only left out. -/
theorem isPath_of_absorbs {fs gs : List (List String × Bytes)} (h : Absorbs fs gs)
    (hf : ∀ f ∈ fs, IsPath f.1) : ∀ g ∈ gs, IsPath g.1 := by
  cases h with
  | mk front rest path next content below =>
      intro g hg
      rcases List.mem_append.1 hg with hg | hg
      · exact hf g (List.mem_append_left _ hg)
      · rcases List.mem_cons.1 hg with rfl | hg
        · exact hf (path, content) (by simp)
        · exact hf g (by simp [hg])

theorem piecesOf_reflTransGen {fs gs : List (List String × Bytes)}
    (h : Relation.ReflTransGen Absorbs fs gs) (hf : ∀ f ∈ fs, IsPath f.1) :
    piecesOf fs = piecesOf gs ∧ ∀ g ∈ gs, IsPath g.1 := by
  induction h with
  | refl => exact ⟨rfl, hf⟩
  | tail _ hstep ih =>
      exact ⟨ih.1.trans (piecesOf_absorbs hstep ih.2), isPath_of_absorbs hstep ih.2⟩

/-- The first file can take in all others. -/
theorem exists_reflTransGen_singleton (path : List String) (content : Bytes)
    (rest : List (List String × Bytes)) :
    ∃ all, Relation.ReflTransGen Absorbs ((path, content) :: rest) [(path, all)] := by
  induction rest generalizing content with
  | nil => exact ⟨content, .refl⟩
  | cons f rest ih =>
      rcases ih (content ++ 0 :: (utf8 (relPath f.1) ++ 0 :: f.2)) with ⟨all, hall⟩
      exact ⟨all, .head (.mk [] rest path f.1 content f.2) hall⟩

/-- The pieces are the same exactly when the files are after running some of them together. -/
theorem piecesOf_eq_iff {fs gs : List (List String × Bytes)} (hf : ∀ f ∈ fs, IsPath f.1)
    (hg : ∀ g ∈ gs, IsPath g.1) : piecesOf fs = piecesOf gs ↔ RunTogether fs gs := by
  constructor
  · intro h
    cases fs with
    | nil =>
        cases gs with
        | nil => exact ⟨[], .refl, .refl⟩
        | cons g gs => simp [piecesOf] at h
    | cons f fs =>
        cases gs with
        | nil => simp [piecesOf] at h
        | cons g gs =>
            rcases exists_reflTransGen_singleton f.1 f.2 fs with ⟨all, hall⟩
            rcases exists_reflTransGen_singleton g.1 g.2 gs with ⟨all', hall'⟩
            -- One file is left of each, and its pieces say which.
            have hone : piecesOf [(f.1, all)] = piecesOf [(g.1, all')] :=
              calc piecesOf [(f.1, all)] = piecesOf (f :: fs) := (piecesOf_reflTransGen hall hf).1.symm
                _ = piecesOf (g :: gs) := h
                _ = piecesOf [(g.1, all')] := (piecesOf_reflTransGen hall' hg).1
            simp only [piecesOf, List.flatMap_singleton, List.cons.injEq] at hone
            have hpath := relPath_inj (hf f List.mem_cons_self) (hg g List.mem_cons_self)
              (utf8_injective hone.1)
            have hsame : (f.1, all) = (g.1, all') := Prod.ext hpath (splitOn_injective 0 hone.2)
            rw [hsame] at hall
            exact ⟨_, hall, hall'⟩
  · rintro ⟨hs, hfs, hgs⟩
    exact (piecesOf_reflTransGen hfs hf).1.trans (piecesOf_reflTransGen hgs hg).1.symm

/-! ## What is digested -/

namespace Workspace

variable {w w' : Workspace}

theorem nul_not_mem_pieces {piece : Bytes} (h : piece ∈ piecesOf w.files) : (0 : UInt8) ∉ piece := by
  rcases List.mem_flatMap.1 h with ⟨f, hf, hpiece⟩
  rcases List.mem_cons.1 hpiece with rfl | hpiece
  · exact nul_not_mem_utf8_relPath (isPath_of_mem_files hf)
  · exact not_mem_of_mem_splitOn hpiece

theorem hashInput_files (w : Workspace) :
    hashInput (collected [] w.files) = (piecesOf w.files).flatMap fun piece => piece ++ [0] := by
  unfold hashInput collected piecesOf
  rw [List.flatMap_map, List.flatMap_assoc]
  refine List.flatMap_congr fun f _ => ?_
  rw [List.flatMap_cons, flatMap_splitOn]
  simp

theorem computeWorkspaceHash_eq (sha256Hex : Bytes → String) (w : Workspace) :
    computeWorkspaceHash sha256Hex w.tree = some (sha256Hex (hashInput (collected [] w.files))) := by
  have hsort : sortBy Prod.fst (collected [] (visibleFiles w.tree)) = collected [] w.files := by
    refine (List.map_insertionSort _ _ _ _ ?_).symm
    intro f _ g _
    exact Iff.rfl
  have hcollect : collectFilesRecursive w.tree [] = some (collected [] (visibleFiles w.tree)) :=
    collectFilesRecursive_eq w.wellFormed rfl []
  unfold computeWorkspaceHash
  rw [hcollect]
  exact congrArg (fun files => some (sha256Hex (hashInput files))) hsort

/-- The digest says what the pieces are, and nothing more. -/
theorem computeWorkspaceHash_eq_iff {sha256Hex : Bytes → String} (h : Function.Injective sha256Hex) :
    computeWorkspaceHash sha256Hex w.tree = computeWorkspaceHash sha256Hex w'.tree ↔
      piecesOf w.files = piecesOf w'.files := by
  rw [computeWorkspaceHash_eq, computeWorkspaceHash_eq, Option.some_inj, h.eq_iff, hashInput_files,
    hashInput_files]
  constructor
  · exact flatMap_concat_inj (fun _ => nul_not_mem_pieces) (fun _ => nul_not_mem_pieces)
  · exact fun heq => heq ▸ rfl

/-- Without NULs in the contents the pieces are paths and contents by turns. -/
theorem files_eq_of_pieces {fs gs : List (List String × Bytes)}
    (hf : ∀ f ∈ fs, IsPath f.1 ∧ (0 : UInt8) ∉ f.2) (hg : ∀ g ∈ gs, IsPath g.1 ∧ (0 : UInt8) ∉ g.2)
    (h : piecesOf fs = piecesOf gs) : fs = gs := by
  induction fs generalizing gs with
  | nil =>
      cases gs with
      | nil => rfl
      | cons g gs => simp [piecesOf] at h
  | cons f fs ih =>
      cases gs with
      | nil => simp [piecesOf] at h
      | cons g gs =>
          rw [List.forall_mem_cons] at hf hg
          rw [piecesOf, piecesOf, List.flatMap_cons, List.flatMap_cons, List.splitOn_eq_singleton hf.1.2,
            List.splitOn_eq_singleton hg.1.2] at h
          rcases List.cons.inj h with ⟨hpath, hrest⟩
          rcases List.cons.inj hrest with ⟨hcontent, hrest⟩
          have hfirst : f = g :=
            Prod.ext (relPath_inj hf.1.1 hg.1.1 (utf8_injective hpath)) hcontent
          rw [hfirst, ih hf.2 hg.2 hrest]

theorem NulFree.sameVisible (h : w.NulFree) (h' : w'.NulFree) (hpieces : piecesOf w.files = piecesOf w'.files) :
    w.SameVisible w' := by
  have hfiles : ∀ w : Workspace, w.NulFree → ∀ f ∈ w.files, IsPath f.1 ∧ (0 : UInt8) ∉ f.2 :=
    fun w h f hf => ⟨isPath_of_mem_files hf, h _ _ (mem_files.1 hf)⟩
  exact files_eq_iff.1 (files_eq_of_pieces (hfiles w h) (hfiles w' h') hpieces)

theorem nulFree_iff : w.NulFree ↔ ∀ f ∈ w.files, (0 : UInt8) ∉ f.2 := by
  constructor
  · exact fun h f hf => h _ _ (mem_files.1 hf)
  · exact fun h path content hfile => h _ (mem_files.2 hfile)

end Workspace

/-- The order of listing does not show in the hash.  Workspaces of one hash have the same visible files exactly
when they do or their files, in the order of their paths, cannot be run together into the same ones; without
NUL bytes in the files they do. -/
theorem computeWorkspaceHash_distinguishes_iff {sha256Hex : Bytes → String}
    (h : Function.Injective sha256Hex) (w w' : Workspace) :
    (w.tree.Relisted w'.tree →
      computeWorkspaceHash sha256Hex w.tree = computeWorkspaceHash sha256Hex w'.tree) ∧
    ((computeWorkspaceHash sha256Hex w.tree = computeWorkspaceHash sha256Hex w'.tree →
        w.SameVisible w') ↔ w.SameVisible w' ∨ ¬ RunTogether w.files w'.files) ∧
    (w.NulFree → w'.NulFree →
      computeWorkspaceHash sha256Hex w.tree = computeWorkspaceHash sha256Hex w'.tree →
        w.SameVisible w') := by
  have hpaths : ∀ w : Workspace, ∀ f ∈ w.files, IsPath f.1 :=
    fun _ _ => Workspace.isPath_of_mem_files
  rw [Workspace.computeWorkspaceHash_eq_iff h]
  refine ⟨fun hrelisted => ?_, ?_, fun hfree hfree' => hfree.sameVisible hfree'⟩
  · rw [Workspace.files_eq_iff.2 (Workspace.SameVisible.of_relisted hrelisted)]
  · rw [← piecesOf_eq_iff (hpaths w) (hpaths w')]
    exact imp_iff_or_not

/-! ## Two workspaces with one hash -/

def twoFiles : Workspace where
  entries := [("a", .leaf (.file (some [120]))), ("b", .leaf (.file (some [121])))]
  wellFormed := .dir (by decide) (by decide +kernel)
    (List.forall_mem_cons.2 ⟨.leaf rfl, List.forall_mem_singleton.2 (.leaf rfl)⟩)

def twoFilesReversed : Workspace where
  entries := [("b", .leaf (.file (some [121]))), ("a", .leaf (.file (some [120])))]
  wellFormed := .dir (by decide) (by decide +kernel)
    (List.forall_mem_cons.2 ⟨.leaf rfl, List.forall_mem_singleton.2 (.leaf rfl)⟩)

/-- The content is `x`, NUL, `b`, NUL, `y`. -/
def oneFile : Workspace where
  entries := [("a", .leaf (.file (some [120, 0, 98, 0, 121])))]
  wellFormed := .dir (by decide) (by decide +kernel) (List.forall_mem_singleton.2 (.leaf rfl))

/-- A digest without collisions that is SHA-256 on what is digested of these workspaces. -/
def sampleSha256Hex : Bytes → String :=
  tableDigest [([97, 0, 120, 0, 98, 0, 121, 0],
    "938fbc10036622392fd65d18a55d15b7e80ee4a3583ca4fadda2d0c1f04efbe4")]

theorem sampleSha256Hex_injective : Function.Injective sampleSha256Hex :=
  tableDigest_injective (by decide +kernel) (by decide +kernel)

theorem twoFiles_relisted :
    computeWorkspaceHash sampleSha256Hex twoFiles.tree =
        computeWorkspaceHash sampleSha256Hex twoFilesReversed.tree ∧
      twoFiles.SameVisible twoFilesReversed := by
  have h := computeWorkspaceHash_distinguishes_iff sampleSha256Hex_injective twoFiles twoFilesReversed
  have hash := h.1 (.perm (List.Perm.swap _ _ _))
  exact ⟨hash, h.2.2 (Workspace.nulFree_iff.2 (by decide +kernel))
    (Workspace.nulFree_iff.2 (by decide +kernel)) hash⟩

/-- A file that holds what separates the two files of another workspace. -/
theorem oneFile_collides :
    computeWorkspaceHash sampleSha256Hex oneFile.tree = computeWorkspaceHash sampleSha256Hex twoFiles.tree ∧
      ¬ oneFile.SameVisible twoFiles := by
  refine ⟨by decide +kernel, fun h => ?_⟩
  exact absurd (Workspace.files_eq_iff.2 h) (by decide +kernel)

end Ci
end Aivcs
