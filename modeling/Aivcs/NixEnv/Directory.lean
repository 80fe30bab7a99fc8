import Aivcs.Lib.TreeStream
import Aivcs.NixEnv.Logic

/-!
# NixEnv.Directory — the hash of a directory without a flake

`hash_directory` digests what it finds in a directory in the order of the names: of each entry its name and a NUL,
then the content of a file and a NUL, or what there is in a directory.  Where a directory ends is not marked, nor
whether there is one.

* `hashDirectory_distinguishes_iff` — two trees are told apart exactly when their listings cannot be run together
  into the same one.
-/

namespace Aivcs
namespace NixEnv

open Aivcs.Lib
open Aivcs.Ci (Leaf)

/-- Hidden files and directories without sources. -/
def isHidden (name : Bytes) : Bool :=
  (fromUtf8Lossy name).head? = some '.' || ["target", "node_modules"].contains (toStringLossy name)

/-- Paths of one directory are ordered by the names. -/
def nameKey (name : Bytes) : List Nat :=
  name.map UInt8.toNat

/-- A name as it is digested. -/
def shownName (name : Bytes) : Bytes :=
  utf8 (toStringLossy name)

mutual

/-- What is fed to the hasher. -/
def hashDirectoryRecursive : Node → Option Bytes
  | .dir entries => do
      let fed ← (sortBy (fun entry => nameKey entry.1) (hashEntries entries)).mapM Prod.snd
      return fed.flatten
  | .leaf .closedDir => none
  | .leaf _ => some []

/-- What is fed for each entry, under its name. -/
def hashEntries : List (Bytes × Node) → List (Bytes × Option Bytes)
  | [] => []
  | (name, node) :: entries =>
      (name,
        if isHidden name then
          some []
        else
          match readFile node with
          | some content => content.map fun content => shownName name ++ 0 :: (content ++ [0])
          | none =>
              if isDir node then
                (hashDirectoryRecursive node).map fun fed => shownName name ++ 0 :: fed
              else
                some (shownName name ++ [0])) :: hashEntries entries

end

def hashDirectory (sha256Hex : Bytes → String) (dir : Node) : Option String :=
  (hashDirectoryRecursive dir).map sha256Hex

/-! ## Trees -/

/-- A name that is not skipped. -/
def IsVisibleName (name : Bytes) : Prop :=
  IsName name ∧ isHidden name = false

instance (name : Bytes) : Decidable (IsVisibleName name) :=
  inferInstanceAs (Decidable (_ ∧ _))

/-- A file that can be read. -/
def IsReadFile (leaf : Leaf) : Prop :=
  ∃ content, leaf = .file (some content)

/-- A directory of directories and files, nothing of it hidden. -/
structure Tree where
  entries : List (Bytes × Node)
  wellFormed : (DirTree.dir entries).WellFormed IsVisibleName IsReadFile

def Tree.node (t : Tree) : Node :=
  .dir t.entries

mutual

/-- A tree in the order of the names, with these as they are digested. -/
def listed : Node → DirTree Bytes Bytes
  | .dir entries =>
      .dir ((sortBy (fun entry => nameKey entry.1) (listedIn entries)).map fun entry => (shownName entry.1, entry.2))
  | .leaf (.file (some content)) => .leaf content
  | .leaf _ => .dir []

def listedIn : List (Bytes × Node) → List (Bytes × DirTree Bytes Bytes)
  | [] => []
  | (name, node) :: entries => (name, listed node) :: listedIn entries

end

/-- What a tree lists. -/
def Tree.listing (t : Tree) : TreeStream.Listing UInt8 :=
  (sortBy (fun entry => nameKey entry.1) (listedIn t.entries)).map fun entry => (shownName entry.1, entry.2)

theorem listedIn_eq_map (entries : List (Bytes × Node)) :
    listedIn entries = entries.map fun entry => (entry.1, listed entry.2) := by
  induction entries with
  | nil => rfl
  | cons entry entries ih => rw [listedIn, ih, List.map_cons]

theorem Tree.listed_node (t : Tree) : listed t.node = .dir t.listing := by
  rw [Tree.node, listed]
  rfl

/-! ## What is digested -/

theorem mapM_snd_some {β γ : Type} (l : List β) (key : β → γ) (fed : β → Bytes) :
    (l.map fun b => (key b, some (fed b))).mapM Prod.snd = some (l.map fed) := by
  induction l with
  | nil => rfl
  | cons b l ih =>
      rw [List.map_cons, List.mapM_cons, ih]
      rfl

theorem writtenIn_eq_flatten {β : Type} (l : List β) (name : β → Bytes) (below : β → DirTree Bytes Bytes) :
    TreeStream.writtenIn 0 (l.map fun b => (name b, below b)) =
      (l.map fun b => name b ++ 0 :: TreeStream.written 0 (below b)).flatten := by
  induction l with
  | nil => rfl
  | cons b l ih =>
      rw [List.map_cons, TreeStream.writtenIn, ih]
      simp

/-- Entries that are each digested as they are listed. -/
theorem hashDirectoryRecursive_dir {entries : List (Bytes × Node)}
    (h : hashEntries entries = (listedIn entries).map fun entry =>
      (entry.1, some (shownName entry.1 ++ 0 :: TreeStream.written 0 entry.2))) :
    hashDirectoryRecursive (.dir entries) = some (TreeStream.written 0 (listed (.dir entries))) := by
  -- The entries are sorted by their names, and what is fed of each does not count.
  have hsort : sortBy (fun entry => nameKey entry.1) (hashEntries entries) =
      (sortBy (fun entry => nameKey entry.1) (listedIn entries)).map fun entry =>
        (entry.1, some (shownName entry.1 ++ 0 :: TreeStream.written 0 entry.2)) := by
    rw [h]
    refine (List.map_insertionSort _ _ _ _ ?_).symm
    intro entry _ entry' _
    exact Iff.rfl
  rw [hashDirectoryRecursive, hsort, mapM_snd_some, listed, TreeStream.written, writtenIn_eq_flatten]
  rfl

theorem hashEntries_eq {entries : List (Bytes × Node)} (hnames : ∀ e ∈ entries, IsVisibleName e.1)
    (hread : ∀ e ∈ entries, e.2.WellFormed IsVisibleName IsReadFile)
    (hdirs : ∀ e ∈ entries, isDir e.2 = true →
      hashDirectoryRecursive e.2 = some (TreeStream.written 0 (listed e.2))) :
    hashEntries entries = (listedIn entries).map fun entry =>
      (entry.1, some (shownName entry.1 ++ 0 :: TreeStream.written 0 entry.2)) := by
  induction entries with
  | nil => rfl
  | cons entry entries ih =>
      rcases entry with ⟨name, node⟩
      rw [List.forall_mem_cons] at hnames hread hdirs
      rw [hashEntries, listedIn, List.map_cons, ih hnames.2 hread.2 hdirs.2, hnames.1.2]
      match node, hread.1, hdirs.1 with
      | .leaf _, .leaf ⟨content, rfl⟩, _ => simp [readFile, listed, TreeStream.written]
      | .dir below, _, hdir =>
          have hbelow := hdir rfl
          simp [readFile, isDir, hbelow]

/-- A readable tree is digested as it is listed. -/
theorem hashDirectoryRecursive_eq {node : Node} (h : node.WellFormed IsVisibleName IsReadFile)
    (hdir : isDir node = true) : hashDirectoryRecursive node = some (TreeStream.written 0 (listed node)) := by
  induction h with
  | leaf hleaf =>
      rcases hleaf with ⟨content, rfl⟩
      cases hdir
  | dir _ hnames hbelow ih => exact hashDirectoryRecursive_dir (hashEntries_eq hnames hbelow ih)

theorem hashDirectory_eq (sha256Hex : Bytes → String) (t : Tree) :
    hashDirectory sha256Hex t.node = some (sha256Hex (TreeStream.writtenIn 0 t.listing)) := by
  have hfed : hashDirectoryRecursive t.node = some (TreeStream.written 0 (listed t.node)) :=
    hashDirectoryRecursive_eq t.wellFormed rfl
  rw [hashDirectory, hfed, t.listed_node, TreeStream.written]
  rfl

/-! ## The order of listing -/

theorem nameKey_injective : Function.Injective nameKey :=
  List.map_injective_iff.2 fun _ _ => UInt8.toNat_inj.1

/-- Listing a tree in another order leaves it well formed and is not seen in the order of the names. -/
theorem relisted_listed {node node' : Node} (h : node.Relisted node')
    (hwf : node.WellFormed IsVisibleName IsReadFile) :
    node'.WellFormed IsVisibleName IsReadFile ∧ listed node = listed node' := by
  induction h with
  | refl => exact ⟨hwf, rfl⟩
  | @perm es es' hperm =>
      cases hwf with
      | dir hnodup hnames hbelow =>
          -- Names differ, so there is one way to sort the entries.
          have hkeys : ((listedIn es).map fun entry => nameKey entry.1).Nodup := by
            rw [listedIn_eq_map, List.map_map]
            have hmap := hnodup.map nameKey_injective
            rwa [List.map_map] at hmap
          have hlisted : (listedIn es).Perm (listedIn es') := by
            rw [listedIn_eq_map, listedIn_eq_map]
            exact hperm.map _
          refine ⟨.dir ((hperm.map Prod.fst).nodup_iff.1 hnodup) (fun e he => hnames e (hperm.mem_iff.2 he))
            fun e he => hbelow e (hperm.mem_iff.2 he), ?_⟩
          rw [listed, listed, sortBy_eq_of_perm hlisted hkeys]
  | @entry pre post name t t' _ ih =>
      cases hwf with
      | dir hnodup hnames hbelow =>
          rcases ih (hbelow (name, t) (by simp)) with ⟨hwf', hlisted⟩
          constructor
          · refine .dir ?_ ?_ ?_
            · simpa using hnodup
            · intro e he
              rcases List.mem_append.1 he with he | he
              · exact hnames e (by simp [he])
              · rcases List.mem_cons.1 he with rfl | he
                · exact hnames (name, t) (by simp)
                · exact hnames e (by simp [he])
            · intro e he
              rcases List.mem_append.1 he with he | he
              · exact hbelow e (by simp [he])
              · rcases List.mem_cons.1 he with rfl | he
                · exact hwf'
                · exact hbelow e (by simp [he])
          -- What is listed further down stands in the same place.
          · have hsame : listedIn (pre ++ (name, t) :: post) = listedIn (pre ++ (name, t') :: post) := by
              simp [listedIn_eq_map, hlisted]
            rw [listed, listed, hsame]
  | trans _ _ ih ih' =>
      rcases ih hwf with ⟨hwf', hlisted⟩
      rcases ih' hwf' with ⟨hwf'', hlisted'⟩
      exact ⟨hwf'', hlisted.trans hlisted'⟩

/-! ## Which trees have one hash -/

/-- The names of a listing hold no NUL. -/
theorem nul_not_mem_listing (t : Tree) : ∀ e ∈ t.listing, (0 : UInt8) ∉ e.1 := by
  intro e he
  rcases List.mem_map.1 he with ⟨entry, hentry, rfl⟩
  rw [mem_sortBy, listedIn_eq_map] at hentry
  rcases List.mem_map.1 hentry with ⟨source, hsource, rfl⟩
  have hname : IsVisibleName source.1 := by
    cases t.wellFormed with
    | dir _ hnames _ => exact hnames source hsource
  intro hmem
  -- Replacement characters are no NULs either.
  rw [shownName, toStringLossy] at hmem
  have hnul := mem_of_mem_utf8_ofList (d := '\x00') (by decide) rfl hmem
  exact hname.1.2.2 (mem_of_mem_fromUtf8Lossy (by decide) hnul)

/-- Trees of one hash are those whose listings can be run together into the same one. -/
theorem hashDirectory_eq_iff {sha256Hex : Bytes → String} (h : Function.Injective sha256Hex) (t t' : Tree) :
    hashDirectory sha256Hex t.node = hashDirectory sha256Hex t'.node ↔
      TreeStream.RunTogether 0 t.listing t'.listing := by
  have hhead (t : Tree) : ∀ e ∈ t.listing.head?, (0 : UInt8) ∉ e.1 :=
    fun e he => nul_not_mem_listing t e (List.mem_of_mem_head? he)
  rw [hashDirectory_eq, hashDirectory_eq, Option.some_inj, h.eq_iff]
  exact TreeStream.writtenIn_eq_iff (hhead t) (hhead t')

/-- Listed in another order, a tree has the same hash.  Two trees of one hash are the same exactly when they are
or their listings cannot be run together into the same one. -/
theorem hashDirectory_distinguishes_iff {sha256Hex : Bytes → String} (h : Function.Injective sha256Hex)
    (t t' : Tree) :
    (t.node.Relisted t'.node → hashDirectory sha256Hex t.node = hashDirectory sha256Hex t'.node) ∧
    ((hashDirectory sha256Hex t.node = hashDirectory sha256Hex t'.node → t.node.Relisted t'.node) ↔
      t.node.Relisted t'.node ∨ ¬ TreeStream.RunTogether 0 t.listing t'.listing) := by
  constructor
  · intro hrelisted
    have hlisted := (relisted_listed hrelisted t.wellFormed).2
    rw [t.listed_node, t'.listed_node] at hlisted
    rw [hashDirectory_eq, hashDirectory_eq, DirTree.dir.inj hlisted]
  · rw [← hashDirectory_eq_iff h]
    exact imp_iff_or_not

/-! ## Two trees with one hash -/

/-- An empty directory `a` and an empty file `b`. -/
def besideTree : Tree where
  entries := [([97], .dir []), ([98], .leaf (.file (some [])))]
  wellFormed := .dir (by decide) (by decide +kernel)
    (List.forall_mem_cons.2 ⟨.dir List.nodup_nil (List.forall_mem_nil _) (List.forall_mem_nil _),
      List.forall_mem_singleton.2 (.leaf ⟨_, rfl⟩)⟩)

/-- The file is in the directory. -/
def insideTree : Tree where
  entries := [([97], .dir [([98], .leaf (.file (some [])))])]
  wellFormed := .dir (by decide) (by decide +kernel)
    (List.forall_mem_singleton.2 (.dir (by decide) (by decide +kernel) (List.forall_mem_singleton.2 (.leaf ⟨_, rfl⟩))))

/-- SHA-256 on what is digested of both. -/
def treeSha256Hex : Bytes → String :=
  tableDigest [([97, 0, 98, 0, 0], "8810e7f8541fdfb6dd46a5f8414fd2e638432bac181da615a9ad293adee675e2")]

theorem treeSha256Hex_injective : Function.Injective treeSha256Hex :=
  tableDigest_injective (by decide +kernel) (by decide +kernel)

/-- Only one of the trees has the file at its top. -/
theorem not_relisted_insideTree : ¬ besideTree.node.Relisted insideTree.node := by
  intro h
  have hbeside : besideTree.node.LeafAt [[98]] (.file (some [])) :=
    DirTree.leafAt_dir_iff.2 ⟨([98], .leaf (.file (some []))), by simp [besideTree], [], rfl, .leaf _⟩
  rcases DirTree.leafAt_dir_iff.1 (h.leafAt_iff.1 hbeside) with ⟨e, he, rest, hpath, _⟩
  rw [insideTree, List.mem_singleton] at he
  rw [he] at hpath
  exact absurd (List.cons.inj hpath).1 (by decide)

theorem besideTree_runTogether : TreeStream.RunTogether 0 besideTree.listing insideTree.listing := by
  have hhash : hashDirectory treeSha256Hex besideTree.node = hashDirectory treeSha256Hex insideTree.node := by
    decide +kernel
  by_contra hrun
  exact not_relisted_insideTree
    (((hashDirectory_distinguishes_iff treeSha256Hex_injective besideTree insideTree).2.2 (Or.inr hrun)) hhash)

/-- A file moved into the empty directory before it. -/
theorem besideTree_collides :
    Function.Injective treeSha256Hex ∧
      hashDirectory treeSha256Hex besideTree.node = hashDirectory treeSha256Hex insideTree.node ∧
      ¬ besideTree.node.Relisted insideTree.node :=
  ⟨treeSha256Hex_injective, by decide +kernel, not_relisted_insideTree⟩

end NixEnv
end Aivcs
