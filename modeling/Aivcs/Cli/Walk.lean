import Aivcs.Lib.Fs
import Aivcs.Lib.Text
import Aivcs.Forge.Types

/-!
# Cli.Walk — a directory tree and the manifest `walk_manifest` makes of it

A `Tree` is the listing of a directory in the order `read_dir` reports it: regular files and
subdirectories.  `walkManifest` reads the root `.aivcsignore`, visits the tree and sorts what it
found.  The digest and the byte count `walk_manifest` also returns are only logged and left out.

The second half says which files end up in a manifest (`visitDir_eq`): those of the tree none of
whose path prefixes is ignored.
-/

namespace Aivcs
namespace Cli

open Aivcs.Lib
open Aivcs.Forge

/-! ## Trees -/

inductive Tree
  | nil
  | file (name : String) (content : Bytes) (executable : Bool) (rest : Tree)
  | dir (name : String) (children : Tree) (rest : Tree)

namespace Tree

/-- The names of the entries of a directory. -/
def names : Tree → List String
  | .nil => []
  | .file name _ _ rest => name :: rest.names
  | .dir name _ rest => name :: rest.names

/-- All regular files below a directory whose own path is `dir`. -/
def files (dir : List String) : Tree → List FileAt
  | .nil => []
  | .file name content executable rest =>
      { path := dir ++ [name], content := content, executable := executable } :: rest.files dir
  | .dir name children rest => children.files (dir ++ [name]) ++ rest.files dir

/-- The content of a regular file of the directory itself. -/
def read (name : String) : Tree → Option Bytes
  | .nil => none
  | .file name' content _ rest => if name' = name then some content else rest.read name
  | .dir name' _ rest => if name' = name then none else rest.read name

end Tree

/-- What a component of a path can be: not empty, not a reference, without separators. -/
def ValidName (name : String) : Prop :=
  name ≠ "" ∧ name ≠ "." ∧ name ≠ ".." ∧ '/' ∉ name.toList ∧ '\\' ∉ name.toList

/-- A tree a file system can hold: valid names, distinct within each directory. -/
def Tree.WellFormed : Tree → Prop
  | .nil => True
  | .file name _ _ rest => ValidName name ∧ name ∉ rest.names ∧ rest.WellFormed
  | .dir name children rest =>
      ValidName name ∧ name ∉ rest.names ∧ children.WellFormed ∧ rest.WellFormed

/-! ## Ignore patterns -/

/-- The row of the dynamic programme after a `*`: a prefix matches if it did before, or if the one
shorter by a character does now. -/
def starRow : Bool → List Bool → List Bool
  | _, [] => []
  | acc, p :: previous => (p || acc) :: starRow (p || acc) previous

/-- The row after any other token. -/
def charRow (token : Char) (value : List Char) (previous : List Bool) : List Bool :=
  false :: List.zipWith (fun p c => p && (token = '?' || token = c)) previous value

/-- `wildcard_match`: `*` and `?` over the characters of the value. -/
def wildcardMatch (pattern value : List Char) : Bool :=
  let row := pattern.foldl
    (fun previous token => if token = '*' then starRow false previous else charRow token value previous)
    (true :: List.replicate value.length false)
  row.getLast? = some true

/-- The pattern of a line of `.aivcsignore`, if it is not blank, a comment or made of slashes. -/
def ignorePattern? (line : List Char) : Option (List Char) :=
  let trimmed := trimBoth isWhitespace line
  if trimmed = [] ∨ trimmed.head? = some '#' then
    none
  else
    -- Slashes at either end say nothing: a pattern for a directory also matches a file.
    let pat := trimBoth (fun c => c = '/') trimmed
    if pat = [] then none else some pat

/-- The patterns of an ignore file, each once.  (A `\r` before the line end is trimmed away.) -/
def ignorePatterns (content : String) : List (List Char) :=
  (content.toList.splitOn '\n').foldl
    (fun pats line =>
      match ignorePattern? line with
      | some pat => if pat ∈ pats then pats else pats ++ [pat]
      | none => pats)
    []

/-- The patterns in force for a tree: an absent or unreadable `.aivcsignore` means none. -/
def Tree.ignorePatterns (tree : Tree) : List (List Char) :=
  match (tree.read ".aivcsignore").bind ofUtf8? with
  | some content => Cli.ignorePatterns content
  | none => []

/-- `should_ignore`, for an entry's name and its path relative to the root. -/
def shouldIgnore (pats : List (List Char)) (fileName relPath : String) : Bool :=
  pats.any fun pat =>
    fileName.toList = pat || relPath.toList = pat || (pat ++ ['/']).isPrefixOf relPath.toList ||
      wildcardMatch pat fileName.toList || wildcardMatch pat relPath.toList

/-! ## The walk -/

/-- Path components joined by slashes. -/
def joinPath : List String → String
  | [] => ""
  | [c] => c
  | c :: cs => c ++ "/" ++ joinPath cs

/-- `replace('\\', "/")`. -/
def replaceBackslash (s : String) : String :=
  String.ofList (s.toList.map fun c => if c = '\\' then '/' else c)

/-- The relative path of an entry as the manifest writes it. -/
def relPath (path : List String) : String :=
  replaceBackslash (joinPath path)

/-- The components a path text names under a directory: empty ones and `.` lead nowhere. -/
def pathComponents (path : String) : List String :=
  ((path.toList.splitOn '/').map String.ofList).filter fun c => c ≠ "" && c ≠ "."

/-- The content of the file a path text names below the root. -/
def Tree.readFile (tree : Tree) (path : String) : Option Bytes :=
  ((tree.files []).find? fun f => f.path = pathComponents path).map FileAt.content

/-- The manifest entry of a file. -/
def entryOf (D : Deployment) (f : FileAt) : ManifestEntry :=
  { path := relPath f.path
    digest := D.sha256Hex f.content
    executable := f.executable
    size := UInt64.ofNat f.content.length }

/-- `visit_dir`: an ignored directory is not entered. -/
def visitDir (D : Deployment) (pats : List (List Char)) (dir : List String) :
    Tree → List ManifestEntry
  | .nil => []
  | .file name content executable rest =>
      if shouldIgnore pats name (relPath (dir ++ [name])) then
        visitDir D pats dir rest
      else
        entryOf D { path := dir ++ [name], content := content, executable := executable } ::
          visitDir D pats dir rest
  | .dir name children rest =>
      if shouldIgnore pats name (relPath (dir ++ [name])) then
        visitDir D pats dir rest
      else
        visitDir D pats (dir ++ [name]) children ++ visitDir D pats dir rest

/-- `walk_manifest`. -/
def walkManifest (D : Deployment) (tree : Tree) : List ManifestEntry :=
  sortByPath (visitDir D tree.ignorePatterns [] tree)

/-! ## Which files are walked -/

/-- Nothing on the way from `dir` to the file is ignored. -/
def KeptFrom (pats : List (List Char)) (dir : List String) (f : FileAt) : Prop :=
  ∀ p name, p ++ [name] <+: f.path → dir <+: p →
    shouldIgnore pats name (relPath (p ++ [name])) = false

/-- The file is in the tree and no prefix of its path is ignored. -/
def Tree.Keeps (tree : Tree) (f : FileAt) : Prop :=
  f ∈ tree.files [] ∧ KeptFrom tree.ignorePatterns [] f

/-- Every file below a directory has the directory and one of its names in front. -/
theorem Tree.exists_name_of_mem_files {tree : Tree} {dir : List String} {f : FileAt}
    (h : f ∈ tree.files dir) : ∃ name ∈ tree.names, dir ++ [name] <+: f.path := by
  induction tree generalizing dir with
  | nil =>
      cases h
  | file name content executable rest ih =>
      rcases List.mem_cons.1 h with rfl | h
      · exact ⟨name, by simp [Tree.names], List.prefix_rfl⟩
      · rcases ih h with ⟨name', hmem, hpre⟩
        exact ⟨name', by simp [Tree.names, hmem], hpre⟩
  | dir name children rest ihc ihr =>
      rcases List.mem_append.1 h with h | h
      · rcases ihc h with ⟨name', -, hpre⟩
        exact ⟨name, by simp [Tree.names], (List.prefix_append _ _).trans hpre⟩
      · rcases ihr h with ⟨name', hmem, hpre⟩
        exact ⟨name', by simp [Tree.names, hmem], hpre⟩

theorem Tree.path_ne_nil_of_mem_files {tree : Tree} {dir : List String} {f : FileAt}
    (h : f ∈ tree.files dir) : f.path ≠ [] := by
  rcases Tree.exists_name_of_mem_files h with ⟨name, -, hpre⟩
  intro hnil
  rw [hnil] at hpre
  simp at hpre

/-- Keeping a file from a directory on: the next component is not ignored, and so on from there. -/
theorem keptFrom_iff {pats : List (List Char)} {dir : List String} {name : String} {f : FileAt}
    (hpre : dir ++ [name] <+: f.path) :
    KeptFrom pats dir f ↔
      shouldIgnore pats name (relPath (dir ++ [name])) = false ∧ KeptFrom pats (dir ++ [name]) f := by
  constructor
  · intro h
    refine ⟨h dir name hpre List.prefix_rfl, ?_⟩
    intro p name' hp hdir
    exact h p name' hp ((List.prefix_append dir [name]).trans hdir)
  · rintro ⟨hname, h⟩ p name' hp hdir
    -- By what stands between `dir` and the component in question.
    rcases hdir with ⟨mid, rfl⟩
    cases mid with
    | nil =>
        -- The prefix is `dir` itself, so the name after it is the given one.
        rw [List.append_nil] at hp ⊢
        have hlen : (dir ++ [name']).length = (dir ++ [name]).length := by simp
        have heq := (List.prefix_of_prefix_length_le hp hpre hlen.le).eq_of_length hlen
        rw [heq]
        have hlast : name' = name := by simpa using heq
        rw [hlast]
        exact hname
    | cons m mid =>
        have hm : dir ++ [m] <+: f.path := by
          refine List.IsPrefix.trans ?_ hp
          exact ⟨mid ++ [name'], by simp⟩
        have hlen : (dir ++ [m]).length = (dir ++ [name]).length := by simp
        have heq := (List.prefix_of_prefix_length_le hm hpre hlen.le).eq_of_length hlen
        refine h _ name' hp ?_
        rw [← heq]
        exact ⟨mid, by simp⟩

/-- A file of the directory itself has nothing below it to be ignored. -/
theorem keptFrom_self {pats : List (List Char)} {f : FileAt} : KeptFrom pats f.path f := by
  intro p name hp hdir
  have h₁ := hp.length_le
  have h₂ := hdir.length_le
  simp at h₁
  omega

open Classical in
/-- The files below a directory that are kept, in walking order. -/
noncomputable def Tree.keptFiles (pats : List (List Char)) (dir : List String) (tree : Tree) :
    List FileAt :=
  (tree.files dir).filter fun f => KeptFrom pats dir f

theorem Tree.mem_keptFiles {pats : List (List Char)} {dir : List String} {tree : Tree} {f : FileAt} :
    f ∈ tree.keptFiles pats dir ↔ f ∈ tree.files dir ∧ KeptFrom pats dir f := by
  simp [Tree.keptFiles]

/-- An ignored subdirectory contributes nothing, one that is not contributes what it keeps. -/
theorem Tree.filter_children {pats : List (List Char)} {dir : List String} {name : String}
    (children : Tree) :
    (open Classical in (children.files (dir ++ [name])).filter fun f => KeptFrom pats dir f) =
      if shouldIgnore pats name (relPath (dir ++ [name])) then []
      else children.keptFiles pats (dir ++ [name]) := by
  have hstep : ∀ f ∈ children.files (dir ++ [name]), (KeptFrom pats dir f ↔
      shouldIgnore pats name (relPath (dir ++ [name])) = false ∧
        KeptFrom pats (dir ++ [name]) f) := by
    intro f hf
    rcases Tree.exists_name_of_mem_files hf with ⟨name', -, hpre⟩
    exact keptFrom_iff ((List.prefix_append _ _).trans hpre)
  split_ifs with hign
  · rw [List.filter_eq_nil_iff]
    intro f hf
    simp [hstep f hf, hign]
  · unfold Tree.keptFiles
    apply List.filter_congr
    intro f hf
    simp [hstep f hf, hign]

/-- The walk makes an entry of exactly the files that are kept. -/
theorem visitDir_eq {D : Deployment} {pats : List (List Char)} (tree : Tree) (dir : List String) :
    visitDir D pats dir tree = (tree.keptFiles pats dir).map (entryOf D) := by
  induction tree generalizing dir with
  | nil =>
      rfl
  | file name content executable rest ih =>
      let f : FileAt := { path := dir ++ [name], content := content, executable := executable }
      -- For a file of the directory itself only its own name and path count.
      have hself : KeptFrom pats dir f ↔
          shouldIgnore pats name (relPath (dir ++ [name])) = false := by
        rw [keptFrom_iff (f := f) List.prefix_rfl]
        exact and_iff_left keptFrom_self
      have hfiles : (Tree.file name content executable rest).keptFiles pats dir =
          if shouldIgnore pats name (relPath (dir ++ [name])) then rest.keptFiles pats dir
          else f :: rest.keptFiles pats dir := by
        unfold Tree.keptFiles
        rw [Tree.files, List.filter_cons]
        split_ifs with hkept hign hign
        · simp [hself.1 (by simpa using hkept)] at hign
        · rfl
        · rfl
        · exact absurd (by simpa using hself.2 (by simpa using hign)) hkept
      rw [visitDir, hfiles, ih]
      split_ifs <;> rfl
  | dir name children rest ihc ihr =>
      have hfiles : (Tree.dir name children rest).keptFiles pats dir =
          (if shouldIgnore pats name (relPath (dir ++ [name])) then []
            else children.keptFiles pats (dir ++ [name])) ++ rest.keptFiles pats dir := by
        rw [← Tree.filter_children children]
        unfold Tree.keptFiles
        rw [Tree.files, List.filter_append]
      rw [visitDir, hfiles, ihr, ihc]
      split_ifs
      · rfl
      · rw [List.map_append]

/-! ## Paths of a well-formed tree -/

/-- Files below two different names of one directory are incomparable. -/
theorem incomparable_of_ne {dir : List String} {n m : String} {f g : FileAt} (hne : n ≠ m)
    (hf : dir ++ [n] <+: f.path) (hg : dir ++ [m] <+: g.path) : Incomparable f g := by
  have hlen : (dir ++ [n]).length = (dir ++ [m]).length := by simp
  have key : ∀ {p : List String}, dir ++ [n] <+: p → dir ++ [m] <+: p → False := by
    intro p hp hq
    have heq := (List.prefix_of_prefix_length_le hp hq hlen.le).eq_of_length hlen
    exact hne (by simpa using heq)
  exact ⟨fun h => key (hf.trans h) hg, fun h => key hf (hg.trans h)⟩

/-- In a tree with distinct names no file is another one or inside another one. -/
theorem Tree.files_incomparable {tree : Tree} (h : tree.WellFormed) (dir : List String) :
    (tree.files dir).Pairwise Incomparable := by
  induction tree generalizing dir with
  | nil =>
      exact List.Pairwise.nil
  | file name content executable rest ih =>
      rcases h with ⟨-, hname, hrest⟩
      refine List.pairwise_cons.2 ⟨?_, ih hrest dir⟩
      intro g hg
      rcases Tree.exists_name_of_mem_files hg with ⟨m, hm, hpre⟩
      have hne : name ≠ m := by
        rintro rfl
        exact hname hm
      exact incomparable_of_ne hne List.prefix_rfl hpre
  | dir name children rest ihc ihr =>
      rcases h with ⟨-, hname, hchildren, hrest⟩
      refine List.pairwise_append.2 ⟨ihc hchildren _, ihr hrest dir, ?_⟩
      intro f hf g hg
      rcases Tree.exists_name_of_mem_files hf with ⟨n, -, hfpre⟩
      rcases Tree.exists_name_of_mem_files hg with ⟨m, hm, hgpre⟩
      have hne : name ≠ m := by
        rintro rfl
        exact hname hm
      exact incomparable_of_ne hne ((List.prefix_append _ _).trans hfpre) hgpre

/-- Every component of a file's path below `dir` is a valid name. -/
theorem Tree.validName_of_mem_files {tree : Tree} (h : tree.WellFormed) {dir : List String}
    (hdir : ∀ c ∈ dir, ValidName c) {f : FileAt} (hf : f ∈ tree.files dir) :
    ∀ c ∈ f.path, ValidName c := by
  have hsnoc : ∀ {name : String}, ValidName name → ∀ c ∈ dir ++ [name], ValidName c := by
    intro name hname c hc
    rcases List.mem_append.1 hc with hc | hc
    · exact hdir c hc
    · rw [List.mem_singleton.1 hc]
      exact hname
  induction tree generalizing dir with
  | nil =>
      cases hf
  | file name content executable rest ih =>
      rcases h with ⟨hname, -, hrest⟩
      rcases List.mem_cons.1 hf with rfl | hf
      · exact hsnoc hname
      · exact ih hrest hdir hf hsnoc
  | dir name children rest ihc ihr =>
      rcases h with ⟨hname, -, hchildren, hrest⟩
      rcases List.mem_append.1 hf with hf | hf
      · refine ihc hchildren (hsnoc hname) hf ?_
        intro name' hname' c hc
        rcases List.mem_append.1 hc with hc | hc
        · exact hsnoc hname c hc
        · rw [List.mem_singleton.1 hc]
          exact hname'
      · exact ihr hrest hdir hf hsnoc

/-! ## Paths as texts -/

theorem replaceBackslash_eq {s : String} (h : '\\' ∉ s.toList) : replaceBackslash s = s := by
  have hmap : (s.toList.map fun c => if c = '\\' then '/' else c) = s.toList := by
    refine (List.map_congr_left ?_).trans (List.map_id _)
    intro c hc
    have hne : c ≠ '\\' := by
      rintro rfl
      exact h hc
    simp [hne]
  unfold replaceBackslash
  rw [hmap, String.ofList_toList]

theorem mem_joinPath {c : Char} :
    ∀ {path : List String}, c ∈ (joinPath path).toList → c = '/' ∨ ∃ n ∈ path, c ∈ n.toList
  | [], h => by
      simp [joinPath] at h
  | [n], h => Or.inr ⟨n, by simp, h⟩
  | n :: m :: path, h => by
      have hmem : c ∈ n.toList ∨ c = '/' ∨ c ∈ (joinPath (m :: path)).toList := by
        simpa [joinPath, or_assoc] using h
      rcases hmem with hn | hslash | hrest
      · exact Or.inr ⟨n, by simp, hn⟩
      · exact Or.inl hslash
      · rcases mem_joinPath hrest with hslash | ⟨n', hn', hc⟩
        · exact Or.inl hslash
        · exact Or.inr ⟨n', List.mem_cons_of_mem _ hn', hc⟩

/-- Splitting a joined path gives its components back. -/
theorem splitOn_joinPath :
    ∀ {path : List String}, path ≠ [] → (∀ n ∈ path, '/' ∉ n.toList) →
      (joinPath path).toList.splitOn '/' = path.map String.toList
  | [], h, _ => absurd rfl h
  | [n], _, h => List.splitOn_eq_singleton (h n (by simp))
  | n :: m :: path, _, h => by
      have ih := @splitOn_joinPath (m :: path) (by simp) (fun n' hn' => h n' (by simp [hn']))
      have hlist : (joinPath (n :: m :: path)).toList =
          n.toList ++ '/' :: (joinPath (m :: path)).toList := by
        simp [joinPath]
      rw [hlist, List.splitOn_append_cons_self_of_not_mem (h n (by simp)), ih]
      rfl

section ValidPath

variable {path : List String} (hne : path ≠ []) (hvalid : ∀ c ∈ path, ValidName c)
include hvalid

theorem relPath_eq : relPath path = joinPath path := by
  apply replaceBackslash_eq
  intro hmem
  rcases mem_joinPath hmem with hslash | ⟨n, hn, hc⟩
  · cases hslash
  · exact (hvalid n hn).2.2.2.2 hc

include hne

theorem splitOn_relPath : (relPath path).toList.splitOn '/' = path.map String.toList := by
  rw [relPath_eq hvalid]
  exact splitOn_joinPath hne (fun n hn => (hvalid n hn).2.2.2.1)

/-- The path text of a file leads back to the file. -/
theorem pathComponents_relPath : pathComponents (relPath path) = path := by
  unfold pathComponents
  rw [splitOn_relPath hne hvalid, List.map_map]
  have hid : path.map (String.ofList ∘ String.toList) = path := by
    apply List.map_id''
    intro s
    simp
  rw [hid, List.filter_eq_self]
  intro c hc
  simp [(hvalid c hc).1, (hvalid c hc).2.1]

end ValidPath

/-- A file of a tree is read back through its manifest path. -/
theorem Tree.readFile_relPath {tree : Tree} (h : tree.WellFormed) {f : FileAt}
    (hf : f ∈ tree.files []) : tree.readFile (relPath f.path) = some f.content := by
  have hvalid := Tree.validName_of_mem_files h (by simp) hf
  have hne := Tree.path_ne_nil_of_mem_files hf
  have hfind : ((tree.files []).find? fun g => g.path = f.path) = some f := by
    cases hg : (tree.files []).find? fun g => g.path = f.path with
    | none =>
        have hno := List.find?_eq_none.1 hg f hf
        simp at hno
    | some g =>
        have hpath : g.path = f.path := by simpa using List.find?_some hg
        by_cases heq : g = f
        · rw [heq]
        · -- Two files with one path would be comparable.
          have hinc := (Tree.files_incomparable h []).forall (List.mem_of_find?_eq_some hg) hf heq
          exact absurd (hpath ▸ List.prefix_rfl) hinc.1
  unfold Tree.readFile
  rw [pathComponents_relPath hne hvalid, hfind]
  rfl

end Cli
end Aivcs
