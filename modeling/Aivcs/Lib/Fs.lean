import Aivcs.Lib.Bytes
import Aivcs.Lib.Map

/-!
# Fs — a directory of regular files

What a program that writes files sees of a directory: below its root each path, a list of
components, holds a regular file, a directory or nothing.  The operations walk a path from the root
as the system calls do, so a missing or a wrong node on the way is an error of its own.

`Represents fs files` says that a directory holds exactly the given files and the directories they
need; `Represents.place` is the rule for adding one.  `Fs.place_ok` is the rule for a directory of
which nothing is known: it says what a write that succeeded has done.

The last part is about files that are made under one name and moved to another: what each call does
in a directory tree (`Fs.IsTree`), and that the tree stays one.
-/

namespace Aivcs
namespace Lib

/-- A regular file with the components of its path. -/
structure FileAt where
  path : List String
  content : Bytes
  executable : Bool
  deriving DecidableEq

inductive FsNode
  | file (content : Bytes) (executable : Bool)
  | dir
  deriving DecidableEq

inductive FsError
  | notFound
  | notADirectory
  | isADirectory
  deriving DecidableEq

/-- The nodes below a root; the root itself has the empty path. -/
abbrev Fs := Map (List String) FsNode

namespace Fs

/-- An empty directory. -/
def emptyDir : Fs :=
  (∅ : Fs).insert [] .dir

/-- Walk a path: everything before its end must be a directory. -/
def walk (fs : Fs) (done : List String) : List String → Except FsError FsNode
  | [] =>
      match fs done with
      | some node => .ok node
      | none => .error .notFound
  | c :: rest =>
      match fs done with
      | some .dir => walk fs (done ++ [c]) rest
      | some (.file _ _) => .error .notADirectory
      | none => .error .notFound

/-- `fs::read`. -/
def read (fs : Fs) (path : List String) : Except FsError Bytes :=
  match fs.walk [] path with
  | .ok (.file content _) => .ok content
  | .ok .dir => .error .isADirectory
  | .error e => .error e

/-- `fs::create_dir_all`: make every missing directory on the way. -/
def createDirAll (fs : Fs) (done : List String) : List String → Except FsError Fs
  | [] =>
      match fs done with
      | some .dir => .ok fs
      | some (.file _ _) => .error .notADirectory
      | none => .ok (fs.insert done .dir)
  | c :: rest =>
      match fs done with
      | some .dir => createDirAll fs (done ++ [c]) rest
      | some (.file _ _) => .error .notADirectory
      | none => createDirAll (fs.insert done .dir) (done ++ [c]) rest

/-- `fs::write`: a new file is not executable, an old one keeps its mode. -/
def write (fs : Fs) (path : List String) (content : Bytes) : Except FsError Fs :=
  match fs.walk [] path.dropLast with
  | .error e => .error e
  | .ok (.file _ _) => .error .notADirectory
  | .ok .dir =>
      match fs path with
      -- A new file gets mode 0o666 less the process mask.
      | none => .ok (fs.insert path (.file content false))
      | some (.file _ executable) => .ok (fs.insert path (.file content executable))
      | some .dir => .error .isADirectory

/-- `fs::set_permissions` to `0o755`. -/
def setExecutable (fs : Fs) (path : List String) : Except FsError Fs :=
  match fs.walk [] path with
  | .error e => .error e
  | .ok (.file content _) => .ok (fs.insert path (.file content true))
  | .ok .dir => .ok fs

/-- Put a file in place: its directories, its content, its mode. -/
def place (fs : Fs) (path : List String) (content : Bytes) (executable : Bool) :
    Except FsError Unit × Fs :=
  match fs.createDirAll [] path.dropLast with
  | .error e => (.error e, fs)
  | .ok fs =>
      match fs.write path content with
      | .error e => (.error e, fs)
      | .ok fs =>
          if executable then
            match fs.setExecutable path with
            | .error e => (.error e, fs)
            | .ok fs => (.ok (), fs)
          else
            (.ok (), fs)

/-- Put files in place one after the other; the first failure ends it. -/
def placeAll (fs : Fs) : List FileAt → Except FsError Unit × Fs
  | [] => (.ok (), fs)
  | f :: rest =>
      match fs.place f.path f.content f.executable with
      | (.ok (), fs) => placeAll fs rest
      | (.error e, fs) => (.error e, fs)

/-! ## Walking -/

/-- With directories all along the way, a walk ends at its last node. -/
theorem walk_eq {fs : Fs} {rest : List String} {done : List String}
    (h : ∀ p, done <+: p → p <+: done ++ rest → p ≠ done ++ rest → fs p = some .dir) :
    fs.walk done rest =
      match fs (done ++ rest) with
      | some node => .ok node
      | none => .error .notFound := by
  -- On what is left of the path; `done` is the directory reached so far.
  induction rest generalizing done with
  | nil =>
      simp [walk]
  | cons c rest ih =>
      have hdone : fs done = some .dir :=
        h done List.prefix_rfl (List.prefix_append _ _) (by simp)
      have hstep : done ++ [c] ++ rest = done ++ c :: rest := by simp
      rw [walk, hdone]
      simp only
      rw [ih, hstep]
      intro p hp hpre hne
      rw [hstep] at hpre hne
      exact h p ((List.prefix_append _ _).trans hp) hpre hne

/-- A path on the way below a directory is that directory or goes on with the next component. -/
theorem eq_or_below {done p rest : List String} {c : String} (hdone : done <+: p)
    (hp : p <+: done ++ c :: rest) : p = done ∨ done ++ [c] <+: p := by
  rcases hdone with ⟨mid, rfl⟩
  cases mid with
  | nil =>
      exact Or.inl (List.append_nil _)
  | cons d mid =>
      have hmid : d :: mid <+: c :: rest := (List.prefix_append_right_inj done).1 hp
      obtain rfl := (List.cons_prefix_cons.1 hmid).1
      exact Or.inr ⟨mid, by simp⟩

/-- A walk arrives when there are directories all along the way and the node at its end. -/
theorem walk_ok_iff {fs : Fs} {rest done : List String} {node : FsNode} :
    fs.walk done rest = .ok node ↔
      fs (done ++ rest) = some node ∧
        ∀ p, done <+: p → p <+: done ++ rest → p ≠ done ++ rest → fs p = some .dir := by
  constructor
  · intro h
    induction rest generalizing done with
    | nil =>
        rw [List.append_nil]
        refine ⟨?_, fun p hdone hp hne => absurd (hp.eq_of_length_le hdone.length_le) hne⟩
        unfold walk at h
        split at h
        · cases h
          assumption
        · cases h
    | cons c rest ih =>
        have hstep : done ++ [c] ++ rest = done ++ c :: rest := by simp
        unfold walk at h
        split at h
        · rename_i hdone
          have hrest := ih h
          rw [hstep] at hrest
          refine ⟨hrest.1, ?_⟩
          intro p hpdone hp hne
          -- The directory just passed, or one further down.
          rcases eq_or_below hpdone hp with rfl | hbelow
          · exact hdone
          · exact hrest.2 p hbelow hp hne
        · cases h
        · cases h
  · rintro ⟨hnode, hdirs⟩
    rw [walk_eq hdirs, hnode]

/-- What is inside the parent directory of a path is a proper prefix of the path. -/
theorem prefix_parent_iff {path p parent : List String} {last : String}
    (hpath : path = parent ++ [last]) :
    p <+: parent ↔ p <+: path ∧ p ≠ path := by
  subst hpath
  constructor
  · intro hp
    refine ⟨hp.trans (List.prefix_append _ _), ?_⟩
    rintro rfl
    have hlen := hp.length_le
    simp at hlen
  · rintro ⟨hp, hne⟩
    exact (List.prefix_concat_iff.1 hp).resolve_left hne

/-- With directories up to it, a node that is put in can be reached. -/
theorem walk_insert {fs : Fs} {path : List String} (hwalk : fs.walk [] path.dropLast = .ok .dir)
    (hnodir : fs path ≠ some .dir) (node : FsNode) :
    walk (fs.insert path node) [] path = .ok node := by
  rcases walk_ok_iff.1 hwalk with ⟨hparent, hdirs⟩
  rw [List.nil_append] at hparent hdirs
  have hne : path ≠ [] := by
    rintro rfl
    exact hnodir hparent
  have hpath : path = path.dropLast ++ [path.getLast hne] :=
    (List.dropLast_append_getLast hne).symm
  refine walk_ok_iff.2 ⟨Map.insert_self _ _ _, ?_⟩
  intro p hnil hp hpne
  rw [List.nil_append] at hp hpne
  rw [Map.insert_of_ne _ _ hpne]
  by_cases hlast : p = path.dropLast
  · rw [hlast, hparent]
  · exact hdirs p hnil ((prefix_parent_iff hpath).2 ⟨hp, hpne⟩) hlast

theorem ne_of_below {done p : List String} {c : String} (h : done ++ [c] <+: p) : p ≠ done := by
  rintro rfl
  have hlen := h.length_le
  simp at hlen

/-- One directory made or found, then the rest of the path below it. -/
theorem dirs_of_below {fs fs₁ fs' : Fs} {done rest : List String} {c : String}
    (hdone : fs₁ done = some .dir) (hother : ∀ p, p ≠ done → fs₁ p = fs p)
    (hdirs : ∀ p, done ++ [c] <+: p → p <+: done ++ c :: rest → fs' p = some .dir)
    (hrest : ∀ p, ¬ (done ++ [c] <+: p ∧ p <+: done ++ c :: rest) → fs' p = fs₁ p) :
    (∀ p, done <+: p → p <+: done ++ c :: rest → fs' p = some .dir) ∧
      ∀ p, ¬ (done <+: p ∧ p <+: done ++ c :: rest) → fs' p = fs p := by
  refine ⟨?_, ?_⟩
  · intro p hpdone hp
    -- The directory just made, or one further down.
    rcases eq_or_below hpdone hp with rfl | hbelow
    · rw [hrest p (fun h => ne_of_below h.1 rfl), hdone]
    · exact hdirs p hbelow hp
  · intro p hp
    have hp' : ¬ (done ++ [c] <+: p ∧ p <+: done ++ c :: rest) := fun h =>
      hp ⟨(List.prefix_append _ _).trans h.1, h.2⟩
    rw [hrest p hp', hother]
    rintro rfl
    exact hp ⟨List.prefix_rfl, List.prefix_append _ _⟩

/-- `create_dir_all` succeeds when no file is in the way, and adds the directories of the path. -/
theorem createDirAll_eq {rest : List String} {fs : Fs} {done : List String}
    (h : ∀ p, done <+: p → p <+: done ++ rest → fs p = none ∨ fs p = some .dir) :
    ∃ fs' : Fs, fs.createDirAll done rest = .ok fs' ∧
      (∀ p, done <+: p → p <+: done ++ rest → fs' p = some .dir) ∧
      ∀ p, ¬ (done <+: p ∧ p <+: done ++ rest) → fs' p = fs p := by
  induction rest generalizing fs done with
  | nil =>
      rw [List.append_nil] at h ⊢
      have heq : ∀ {p : List String}, done <+: p → p <+: done → p = done := fun h₁ h₂ =>
        h₂.eq_of_length_le h₁.length_le
      rcases h done List.prefix_rfl List.prefix_rfl with hnone | hdir
      · refine ⟨fs.insert done .dir, by simp [createDirAll, hnone], ?_, ?_⟩
        · intro p h₁ h₂
          rw [heq h₁ h₂, Map.insert_self]
        · intro p hp
          apply Map.insert_of_ne
          rintro rfl
          exact hp ⟨List.prefix_rfl, List.prefix_rfl⟩
      · refine ⟨fs, by simp [createDirAll, hdir], ?_, fun _ _ => rfl⟩
        intro p h₁ h₂
        rw [heq h₁ h₂, hdir]
  | cons c rest ih =>
      have hstep : done ++ [c] ++ rest = done ++ c :: rest := by simp
      have hbelow : ∀ fs₁ : Fs, fs₁ done = some .dir → (∀ p, p ≠ done → fs₁ p = fs p) →
          ∃ fs' : Fs, fs₁.createDirAll (done ++ [c]) rest = .ok fs' ∧
            (∀ p, done <+: p → p <+: done ++ c :: rest → fs' p = some .dir) ∧
            ∀ p, ¬ (done <+: p ∧ p <+: done ++ c :: rest) → fs' p = fs p := by
        intro fs₁ hdone hother
        have hfree : ∀ p, done ++ [c] <+: p → p <+: done ++ [c] ++ rest →
            fs₁ p = none ∨ fs₁ p = some .dir := by
          intro p hp hpre
          rw [hother p (ne_of_below hp)]
          exact h p ((List.prefix_append _ _).trans hp) (hstep ▸ hpre)
        rcases ih hfree with ⟨fs', hok, hdirs, hrest⟩
        rw [hstep] at hdirs hrest
        exact ⟨fs', hok, dirs_of_below hdone hother hdirs hrest⟩
      rcases h done List.prefix_rfl (List.prefix_append _ _) with hnone | hdir
      · rcases hbelow (fs.insert done .dir) (Map.insert_self _ _ _)
          (fun p hp => Map.insert_of_ne _ _ hp) with ⟨fs', hok, hrest⟩
        exact ⟨fs', by simp [createDirAll, hnone, hok], hrest⟩
      · rcases hbelow fs hdir (fun _ _ => rfl) with ⟨fs', hok, hrest⟩
        exact ⟨fs', by simp [createDirAll, hdir, hok], hrest⟩

end Fs

/-! ## A directory of given files -/

/-- Neither path is inside the other. -/
def Incomparable (f g : FileAt) : Prop :=
  ¬ f.path <+: g.path ∧ ¬ g.path <+: f.path

instance : Std.Symm Incomparable where
  symm := fun _ _ h => ⟨h.2, h.1⟩

/-- The directory holds the files, the directories they are in, and nothing else. -/
structure Represents (fs : Fs) (files : List FileAt) : Prop where
  root : fs [] = some .dir
  file : ∀ f ∈ files, fs f.path = some (.file f.content f.executable)
  dir : ∀ f ∈ files, ∀ p, p <+: f.path → p ≠ f.path → fs p = some .dir
  only : ∀ p node, fs p = some node → p = [] ∨ ∃ f ∈ files, p <+: f.path

theorem represents_emptyDir : Represents Fs.emptyDir [] where
  root := Map.insert_self _ _ _
  file := by
    intro f hf
    cases hf
  dir := by
    intro f hf
    cases hf
  only := by
    intro p node h
    rcases Map.insert_eq_some h with ⟨rfl, -⟩ | ⟨-, h⟩
    · exact Or.inl rfl
    · cases h

/-- The regular files of the directory are exactly the given ones. -/
theorem Represents.file_iff {fs : Fs} {files : List FileAt} (h : Represents fs files) (f : FileAt) :
    fs f.path = some (.file f.content f.executable) ↔ f ∈ files := by
  constructor
  · intro hf
    rcases h.only _ _ hf with hroot | ⟨g, hg, hpre⟩
    · rw [hroot, h.root] at hf
      cases hf
    · -- What is there is a file or a directory above one; a directory is not a file.
      by_cases heq : f.path = g.path
      · rw [heq, h.file g hg] at hf
        have hnode := Option.some.inj hf
        injection hnode with hc hx
        have hfg : f = g := by
          cases f
          cases g
          simp_all
        rw [hfg]
        exact hg
      · rw [h.dir g hg _ hpre heq] at hf
        cases hf
  · exact h.file f

/-! ### Adding a file -/

section Place

variable {fs : Fs} {files : List FileAt} {g : FileAt} {parent : List String} {last : String}

/-- On the way to a new file there are only directories and gaps. -/
theorem Represents.dir_or_gap (h : Represents fs files) (hnew : ∀ f ∈ files, Incomparable f g)
    {p : List String} (hp : p <+: g.path) : fs p = none ∨ fs p = some .dir := by
  cases hnode : fs p with
  | none =>
      exact Or.inl rfl
  | some node =>
      rcases h.only p node hnode with rfl | ⟨f, hf, hpre⟩
      · exact Or.inr (by rw [← hnode, h.root])
      · have hne : p ≠ f.path := by
          rintro rfl
          exact (hnew f hf).1 hp
        exact Or.inr (by rw [← hnode, h.dir f hf p hpre hne])

/-- Nothing is where a new file goes. -/
theorem Represents.gap (h : Represents fs files) (hroot : g.path ≠ [])
    (hnew : ∀ f ∈ files, Incomparable f g) : fs g.path = none := by
  cases hnode : fs g.path with
  | none =>
      rfl
  | some node =>
      rcases h.only _ _ hnode with hnil | ⟨f, hf, hpre⟩
      · exact absurd hnil hroot
      · exact absurd hpre (hnew f hf).2

/-- With the directories of the new file made and its node put in, the directory holds one file
more. -/
theorem Represents.insert_file (h : Represents fs files) (hpath : g.path = parent ++ [last])
    (hnew : ∀ f ∈ files, Incomparable f g) {fs₁ : Fs}
    (hdirs : ∀ p, p <+: parent → fs₁ p = some .dir) (hrest : ∀ p, ¬ p <+: parent → fs₁ p = fs p) :
    Represents (fs₁.insert g.path (.file g.content g.executable)) (g :: files) := by
  have hroot : g.path ≠ [] := by simp [hpath]
  refine ⟨?_, ?_, ?_, ?_⟩
  · rw [Map.insert_of_ne _ _ (Ne.symm hroot)]
    exact hdirs [] List.nil_prefix
  · intro f hf
    rcases List.mem_cons.1 hf with rfl | hf
    · exact Map.insert_self _ _ _
    · have hne : f.path ≠ g.path := fun heq => (hnew f hf).1 (heq ▸ List.prefix_rfl)
      have hnot : ¬ f.path <+: parent := fun hp =>
        (hnew f hf).1 ((Fs.prefix_parent_iff hpath).1 hp).1
      rw [Map.insert_of_ne _ _ hne, hrest f.path hnot, h.file f hf]
  · intro f hf p hp hne
    have hpg : p ≠ g.path := by
      rintro rfl
      rcases List.mem_cons.1 hf with rfl | hf
      · exact hne rfl
      · exact (hnew f hf).2 hp
    rw [Map.insert_of_ne _ _ hpg]
    by_cases hpar : p <+: parent
    · exact hdirs p hpar
    · -- Not on the way to the new file, so the directory is one of the old ones.
      rw [hrest p hpar]
      rcases List.mem_cons.1 hf with rfl | hf
      · exact absurd ((Fs.prefix_parent_iff hpath).2 ⟨hp, hne⟩) hpar
      · exact h.dir f hf p hp hne
  · intro p node hnode
    rcases Map.insert_eq_some hnode with ⟨rfl, -⟩ | ⟨-, hold⟩
    · exact Or.inr ⟨g, by simp, List.prefix_rfl⟩
    · by_cases hpar : p <+: parent
      · exact Or.inr ⟨g, by simp, ((Fs.prefix_parent_iff hpath).1 hpar).1⟩
      · rw [hrest p hpar] at hold
        rcases h.only p node hold with hnil | ⟨f, hf, hpre⟩
        · exact Or.inl hnil
        · exact Or.inr ⟨f, by simp [hf], hpre⟩

/-- With its directories there and nothing in its place, a file is written with its mode. -/
theorem Fs.write_place (hpath : g.path = parent ++ [last])
    (hdirs : ∀ p, p <+: parent → fs p = some .dir) (hgap : fs g.path = none) :
    fs.write g.path g.content = .ok (fs.insert g.path (.file g.content false)) ∧
      Fs.setExecutable (fs.insert g.path (.file g.content false)) g.path =
        .ok (fs.insert g.path (.file g.content true)) := by
  have hparent : g.path.dropLast = parent := by rw [hpath, List.dropLast_concat]
  have hwalk : fs.walk [] parent = .ok .dir := by
    have hall : ∀ p, [] <+: p → p <+: [] ++ parent → p ≠ [] ++ parent → fs p = some .dir :=
      fun p _ hp _ => hdirs p hp
    rw [Fs.walk_eq hall, List.nil_append, hdirs parent List.prefix_rfl]
  have hwalk' : Fs.walk (fs.insert g.path (.file g.content false)) [] g.path =
      .ok (.file g.content false) :=
    Fs.walk_insert (hparent.symm ▸ hwalk) (by simp [hgap]) _
  refine ⟨?_, ?_⟩
  · simp only [Fs.write, hparent, hwalk, hgap]
  · simp only [Fs.setExecutable, hwalk', Map.insert_insert]

/-- A file that is incomparable with those in the directory can be put there. -/
theorem Represents.place (h : Represents fs files) (hroot : g.path ≠ [])
    (hnew : ∀ f ∈ files, Incomparable f g) :
    ∃ fs', fs.place g.path g.content g.executable = (.ok (), fs') ∧ Represents fs' (g :: files) := by
  obtain ⟨parent, last, hpath⟩ : ∃ parent last, g.path = parent ++ [last] :=
    ⟨g.path.dropLast, g.path.getLast hroot, (List.dropLast_append_getLast hroot).symm⟩
  have hparent : g.path.dropLast = parent := by rw [hpath, List.dropLast_concat]
  have hway : ∀ p, [] <+: p → p <+: [] ++ parent → fs p = none ∨ fs p = some .dir :=
    fun p _ hp => h.dir_or_gap hnew ((Fs.prefix_parent_iff hpath).1 hp).1
  rcases Fs.createDirAll_eq hway with ⟨fs₁, hmk, hdirs, hrest⟩
  have hdirs₁ : ∀ p, p <+: parent → fs₁ p = some .dir := fun p hp => hdirs p List.nil_prefix hp
  have hrest₁ : ∀ p, ¬ p <+: parent → fs₁ p = fs p := fun p hp => hrest p (fun h' => hp h'.2)
  -- Making the directories leaves the place of the file empty.
  have hgap : fs₁ g.path = none := by
    rw [hrest₁ g.path (fun hp => ((Fs.prefix_parent_iff hpath).1 hp).2 rfl), h.gap hroot hnew]
  rcases Fs.write_place hpath hdirs₁ hgap with ⟨hwrite, hmode⟩
  refine ⟨_, ?_, h.insert_file hpath hnew hdirs₁ hrest₁⟩
  cases hx : g.executable with
  | false =>
      simp [Fs.place, hparent, hmk, hwrite]
  | true =>
      simp [Fs.place, hparent, hmk, hwrite, hmode]

/-- Files of which none is inside another can be put in place one after the other. -/
theorem Represents.placeAll {rest : List FileAt} (h : Represents fs files)
    (hroot : ∀ f ∈ rest, f.path ≠ []) (hnew : ∀ f ∈ files, ∀ g ∈ rest, Incomparable f g)
    (hrest : rest.Pairwise Incomparable) :
    ∃ fs', fs.placeAll rest = (.ok (), fs') ∧ Represents fs' (rest.reverse ++ files) := by
  induction rest generalizing fs files with
  | nil =>
      exact ⟨fs, rfl, h⟩
  | cons g rest ih =>
      rcases List.pairwise_cons.1 hrest with ⟨hg, hrest'⟩
      rcases h.place (hroot g (by simp)) (fun f hf => hnew f hf g (by simp)) with ⟨fs₁, hplace, h₁⟩
      have hnew₁ : ∀ f ∈ g :: files, ∀ g' ∈ rest, Incomparable f g' := by
        intro f hf g' hg'
        rcases List.mem_cons.1 hf with rfl | hf
        · exact hg g' hg'
        · exact hnew f hf g' (by simp [hg'])
      rcases ih h₁ (fun f hf => hroot f (by simp [hf])) hnew₁ hrest' with ⟨fs', hall, h'⟩
      refine ⟨fs', ?_, ?_⟩
      · rw [Fs.placeAll, hplace]
        exact hall
      · rwa [List.reverse_cons, List.append_assoc]

end Place

/-- A directory is determined by the files it holds, in whatever order they are listed. -/
theorem Represents.eq_of_perm {fs fs' : Fs} {files files' : List FileAt} (h : Represents fs files)
    (h' : Represents fs' files') (hperm : files.Perm files') : fs = fs' := by
  -- What one of two such directories holds, the other holds too.
  have hle : ∀ {a b : Fs} {as bs : List FileAt}, Represents a as → Represents b bs →
      (∀ f ∈ as, f ∈ bs) → ∀ p node, a p = some node → b p = some node := by
    intro a b as bs ha hb hsub p node hnode
    rcases ha.only p node hnode with rfl | ⟨f, hf, hpre⟩
    · rw [hb.root, ← hnode, ha.root]
    · by_cases heq : p = f.path
      · rw [heq, hb.file f (hsub f hf), ← hnode, heq, ha.file f hf]
      · rw [hb.dir f (hsub f hf) p hpre heq, ← hnode, ha.dir f hf p hpre heq]
  apply Map.ext
  intro p
  refine Option.ext ?_
  intro node
  exact ⟨hle h h' (fun f => hperm.mem_iff.1) p node, hle h' h (fun f => hperm.mem_iff.2) p node⟩

/-- In an empty directory nothing is found. -/
theorem Represents.read_notFound {fs : Fs} (h : Represents fs []) {path : List String}
    (hpath : path ≠ []) : fs.read path = .error .notFound := by
  have hgap : ∀ c, fs [c] = none := by
    intro c
    cases hnode : fs [c] with
    | none =>
        rfl
    | some node =>
        rcases h.only [c] node hnode with hnil | ⟨f, hf, -⟩
        · cases hnil
        · cases hf
  cases path with
  | nil =>
      exact absurd rfl hpath
  | cons c rest =>
      cases rest with
      | nil =>
          simp [Fs.read, Fs.walk, h.root, hgap c]
      | cons d rest =>
          simp [Fs.read, Fs.walk, h.root, hgap c]

/-! ## Writing over what is there -/

namespace Fs

variable {fs fs' : Fs}

/-- The executable bit at a path; only files have one. -/
def executableAt (fs : Fs) (path : List String) : Bool :=
  match fs path with
  | some (.file _ executable) => executable
  | _ => false

/-- What was at the path is still there; where nothing was, there may be a directory now. -/
def KeptAt (fs fs' : Fs) (p : List String) : Prop :=
  fs' p = fs p ∨ (fs p = none ∧ fs' p = some .dir)

theorem KeptAt.refl (fs : Fs) (p : List String) : KeptAt fs fs p :=
  Or.inl rfl

theorem KeptAt.trans {fs₁ fs₂ fs₃ : Fs} {p : List String} (h₁ : KeptAt fs₁ fs₂ p)
    (h₂ : KeptAt fs₂ fs₃ p) : KeptAt fs₁ fs₃ p := by
  rcases h₁ with h₁ | ⟨hnone, hdir⟩
  · rwa [KeptAt, h₁] at h₂
  · rcases h₂ with h₂ | ⟨h₂, -⟩
    · exact Or.inr ⟨hnone, h₂.trans hdir⟩
    · rw [hdir] at h₂
      cases h₂

/-- What is there stays there. -/
theorem KeptAt.eq_some {p : List String} {node : FsNode} (h : KeptAt fs fs' p)
    (hp : fs p = some node) : fs' p = some node := by
  rcases h with h | ⟨hnone, -⟩
  · rw [h, hp]
  · rw [hnone] at hp
    cases hp

/-- No file is new. -/
theorem KeptAt.of_file {p : List String} {content : Bytes} {executable : Bool}
    (h : KeptAt fs fs' p) (hp : fs' p = some (.file content executable)) :
    fs p = some (.file content executable) := by
  rcases h with h | ⟨-, hdir⟩
  · rw [← h, hp]
  · rw [hdir] at hp
    cases hp

theorem KeptAt.executableAt_eq {p : List String} (h : KeptAt fs fs' p) :
    fs'.executableAt p = fs.executableAt p := by
  rcases h with h | ⟨hnone, hdir⟩
  · simp only [executableAt, h]
  · simp only [executableAt, hnone, hdir]

theorem keptAt_insert_dir {d : List String} (hd : fs d = none) (p : List String) :
    KeptAt fs (fs.insert d .dir) p := by
  by_cases hp : p = d
  · subst hp
    exact Or.inr ⟨hd, Map.insert_self _ _ _⟩
  · exact Or.inl (Map.insert_of_ne _ _ hp)

/-- A walk goes on to arrive when everything on its way is kept. -/
theorem walk_of_keptAt {path : List String} {node : FsNode} (h : fs.walk [] path = .ok node)
    (hkept : ∀ p, p <+: path → KeptAt fs fs' p) : fs'.walk [] path = .ok node := by
  rcases walk_ok_iff.1 h with ⟨hnode, hdirs⟩
  rw [List.nil_append] at hnode hdirs
  refine walk_ok_iff.2 ⟨(hkept path List.prefix_rfl).eq_some hnode, ?_⟩
  intro p hnil hp hne
  exact (hkept p hp).eq_some (hdirs p hnil hp hne)

/-- What a directory tree is: whatever is there is in directories, up to the root. -/
def IsTree (fs : Fs) : Prop :=
  ∀ p q node, p <+: q → p ≠ q → fs q = some node → fs p = some .dir

/-- In a tree everything can be reached. -/
theorem IsTree.walk_eq (h : fs.IsTree) {path : List String} {node : FsNode}
    (hnode : fs path = some node) : fs.walk [] path = .ok node :=
  walk_ok_iff.2 ⟨hnode, fun p _ hp hne => h p path node hp hne hnode⟩

/-- A directory of given files is a tree. -/
theorem isTree_of_represents {files : List FileAt} (h : Represents fs files) : fs.IsTree := by
  intro p q node hpre hne hq
  rcases h.only q node hq with rfl | ⟨f, hf, hqf⟩
  · exact absurd (List.prefix_nil.1 hpre) hne
  · refine h.dir f hf p (hpre.trans hqf) ?_
    rintro rfl
    exact hne (hpre.eq_of_length_le hqf.length_le)

/-- Directories appear, nothing else happens. -/
theorem keptAt_of_createDirAll {rest : List String} {fs : Fs} {done : List String}
    (h : fs.createDirAll done rest = .ok fs') (p : List String) : KeptAt fs fs' p := by
  induction rest generalizing fs done with
  | nil =>
      unfold createDirAll at h
      split at h
      · cases h
        exact KeptAt.refl _ _
      · cases h
      · rename_i hnone
        cases h
        exact keptAt_insert_dir hnone p
  | cons c rest ih =>
      unfold createDirAll at h
      split at h
      · exact ih h
      · cases h
      · rename_i hnone
        exact (keptAt_insert_dir hnone p).trans (ih h)

/-- A write that succeeds: there were directories up to the file, and if the file is an old one it
keeps its mode. -/
theorem write_ok {path : List String} {content : Bytes} (h : fs.write path content = .ok fs') :
    fs.walk [] path.dropLast = .ok .dir ∧ fs path ≠ some .dir ∧
      fs' = fs.insert path (.file content (fs.executableAt path)) := by
  unfold write at h
  split at h
  · cases h
  · cases h
  · rename_i hwalk
    refine ⟨hwalk, ?_⟩
    split at h
    · rename_i hnone
      cases h
      simp [hnone, executableAt]
    · rename_i hfile
      cases h
      simp [hfile, executableAt]
    · cases h

/-- The file just written can be made executable and nothing else can happen. -/
theorem setExecutable_ok {path : List String} {content : Bytes} {executable : Bool}
    (h : setExecutable (fs.insert path (.file content executable)) path = .ok fs') :
    fs' = fs.insert path (.file content true) := by
  unfold setExecutable at h
  split at h
  · cases h
  · rename_i hwalk
    have hnode := (walk_ok_iff.1 hwalk).1
    rw [List.nil_append, Map.insert_self] at hnode
    cases hnode
    cases h
    exact Map.insert_insert _ _ _ _
  · rename_i hwalk
    have hnode := (walk_ok_iff.1 hwalk).1
    rw [List.nil_append, Map.insert_self] at hnode
    cases hnode

/-- Putting a file in place, when it succeeds: the file can be reached and has the content; it is
executable if it is to be or if an executable file was there.  Everything else is kept. -/
theorem place_ok {path : List String} {content : Bytes} {executable : Bool}
    (h : fs.place path content executable = (.ok (), fs')) :
    fs'.walk [] path = .ok (.file content (executable || fs.executableAt path)) ∧
      ∀ p, p ≠ path → KeptAt fs fs' p := by
  unfold place at h
  split at h
  · cases h
  · rename_i fs₁ hmk
    have hkept := keptAt_of_createDirAll hmk
    split at h
    · cases h
    · rename_i fs₂ hwrite
      rcases write_ok hwrite with ⟨hwalk, hnodir, rfl⟩
      -- The directories that were made are not the file's, so its mode is the one from before.
      rw [(hkept path).executableAt_eq] at h
      have hfs' : fs' = fs₁.insert path (.file content (executable || fs.executableAt path)) := by
        cases executable with
        | false =>
            cases h
            rfl
        | true =>
            simp only [if_true] at h
            split at h
            · cases h
            · rename_i hmode
              cases h
              exact setExecutable_ok hmode
      subst hfs'
      refine ⟨walk_insert hwalk hnodir _, ?_⟩
      intro p hp
      rw [KeptAt, Map.insert_of_ne _ _ hp]
      exact hkept p

theorem placeAll_append {xs : List FileAt} (ys : List FileAt) {fs : Fs}
    (h : fs.placeAll xs = (.ok (), fs')) : fs.placeAll (xs ++ ys) = fs'.placeAll ys := by
  induction xs generalizing fs with
  | nil =>
      cases h
      rfl
  | cons f xs ih =>
      unfold placeAll at h
      split at h
      · rename_i fs₁ hplace
        rw [List.cons_append, placeAll, hplace]
        exact ih h
      · cases h

/-- Files put in place of which none is inside another: each ends up as it would have alone. -/
theorem placeAll_ok {files : List FileAt} {fs : Fs} (h : fs.placeAll files = (.ok (), fs'))
    (hpw : files.Pairwise Incomparable) :
    (∀ f ∈ files,
      fs'.walk [] f.path = .ok (.file f.content (f.executable || fs.executableAt f.path))) ∧
    ∀ p, (∀ f ∈ files, p ≠ f.path) → KeptAt fs fs' p := by
  induction files generalizing fs with
  | nil =>
      cases h
      exact ⟨fun f hf => absurd hf List.not_mem_nil, fun p _ => KeptAt.refl _ _⟩
  | cons g files ih =>
      rcases List.pairwise_cons.1 hpw with ⟨hg, hrest⟩
      unfold placeAll at h
      split at h
      · rename_i fs₁ hplace
        rcases place_ok hplace with ⟨hwalk, hkept⟩
        rcases ih h hrest with ⟨hfiles, hkept'⟩
        have hne : ∀ f ∈ files, f.path ≠ g.path := fun f hf heq =>
          (hg f hf).2 (heq ▸ List.prefix_rfl)
        refine ⟨?_, ?_⟩
        · intro f hf
          rcases List.mem_cons.1 hf with rfl | hf
          · -- No file that comes later is on the way to this one.
            refine walk_of_keptAt hwalk ?_
            intro p hp
            refine hkept' p ?_
            rintro f' hf' rfl
            exact (hg f' hf').2 hp
          · rw [← (hkept f.path (hne f hf)).executableAt_eq]
            exact hfiles f hf
        · intro p hp
          have hpg : p ≠ g.path := hp g List.mem_cons_self
          have hpfiles : ∀ f ∈ files, p ≠ f.path := fun f hf =>
            hp f (List.mem_cons_of_mem _ hf)
          exact (hkept p hpg).trans (hkept' p hpfiles)
      · cases h

end Fs

/-! ## Files that come and go -/

namespace Fs

variable {fs : Fs}

/-- `Path::exists`, when the path can be examined. -/
def exists? (fs : Fs) (path : List String) : Bool :=
  (fs.walk [] path).isOk

/-- `OpenOptions::create_new`: an empty file, `none` when the name is taken. -/
def createNew (fs : Fs) (path : List String) : Except FsError (Option Fs) :=
  match fs.walk [] path.dropLast with
  | .error e => .error e
  | .ok (.file _ _) => .error .notADirectory
  | .ok .dir =>
      match fs path with
      | some _ => .ok none
      | none => .ok (some (fs.insert path (.file [] false)))

/-- A write at the end of a file. -/
def append (fs : Fs) (path : List String) (bs : Bytes) : Except FsError Fs :=
  match fs.walk [] path with
  | .error e => .error e
  | .ok .dir => .error .isADirectory
  | .ok (.file content executable) => .ok (fs.insert path (.file (content ++ bs) executable))

/-- `fs::rename` of a file: it takes the place of a file that has the new name. -/
def rename (fs : Fs) (src dst : List String) : Except FsError Fs :=
  match fs.walk [] src, fs.walk [] dst.dropLast with
  | .error e, _ => .error e
  | .ok .dir, _ => .error .isADirectory
  | .ok (.file _ _), .error e => .error e
  | .ok (.file _ _), .ok (.file _ _) => .error .notADirectory
  | .ok (.file content executable), .ok .dir =>
      match fs dst with
      | some .dir => .error .isADirectory
      | _ => .ok ((fs.erase src).insert dst (.file content executable))

/-- `fs::remove_file`. -/
def removeFile (fs : Fs) (path : List String) : Except FsError Fs :=
  match fs.walk [] path with
  | .error e => .error e
  | .ok .dir => .error .isADirectory
  | .ok (.file _ _) => .ok (fs.erase path)

/-- In a tree a walk looks its path up. -/
theorem IsTree.walk_iff (h : fs.IsTree) {path : List String} {node : FsNode} :
    fs.walk [] path = .ok node ↔ fs path = some node := by
  constructor
  · intro hwalk
    simpa using (walk_ok_iff.1 hwalk).1
  · exact h.walk_eq

theorem IsTree.exists?_iff (h : fs.IsTree) {path : List String} :
    fs.exists? path = true ↔ (fs path).isSome = true := by
  cases hnode : fs path with
  | some node =>
      simp [exists?, h.walk_eq hnode, Except.isOk, Except.toBool]
  | none =>
      cases hwalk : fs.walk [] path with
      | error e =>
          simp [exists?, hwalk, Except.isOk, Except.toBool]
      | ok node =>
          rw [h.walk_iff, hnode] at hwalk
          cases hwalk

/-- Where no file is in the way, a walk can only miss something. -/
theorem walk_eq_notFound {rest done : List String} {e : FsError}
    (hfile : ∀ p content executable, done <+: p → p <+: done ++ rest →
      fs p ≠ some (.file content executable)) (h : fs.walk done rest = .error e) : e = .notFound := by
  induction rest generalizing done with
  | nil =>
      unfold walk at h
      split at h
      · cases h
      · cases h
        rfl
  | cons c rest ih =>
      unfold walk at h
      split at h
      · refine ih ?_ h
        intro p content executable hp hpre
        refine hfile p content executable ((List.prefix_append _ _).trans hp) ?_
        simpa using hpre
      · rename_i hnode
        exact absurd hnode (hfile done _ _ List.prefix_rfl (List.prefix_append _ _))
      · cases h
        rfl

/-- Reading what is missing in a tree, with directories up to it or nothing. -/
theorem IsTree.read_eq_notFound (h : fs.IsTree) {path : List String} (hnone : fs path = none)
    (hfile : ∀ p content executable, p <+: path → fs p ≠ some (.file content executable)) :
    fs.read path = .error .notFound := by
  unfold read
  cases hwalk : fs.walk [] path with
  | ok node =>
      rw [h.walk_iff, hnone] at hwalk
      cases hwalk
  | error e =>
      rw [@walk_eq_notFound _ path [] _ (fun p content executable _ hp =>
        hfile p content executable hp) hwalk]

section Child

variable {dir : List String} {name : String}

/-- A directory on the way to a file is not the file. -/
theorem child_ne (dir : List String) (name : String) : dir ≠ dir ++ [name] := by
  simp

/-- A file can be put into a directory of a tree, unless a directory has its name. -/
theorem IsTree.insert_file (h : fs.IsTree) (hdir : fs dir = some .dir)
    (hname : fs (dir ++ [name]) ≠ some .dir) (content : Bytes) (executable : Bool) :
    IsTree (fs.insert (dir ++ [name]) (.file content executable)) := by
  intro p q node hpre hne hq
  by_cases hpath : q = dir ++ [name]
  · subst hpath
    rw [Map.insert_of_ne _ _ hne]
    -- A proper prefix of the path is the directory or on the way to it.
    have hparent : p <+: dir := (prefix_parent_iff rfl).2 ⟨hpre, hne⟩
    by_cases hp : p = dir
    · rw [hp, hdir]
    · exact h p dir .dir hparent hp hdir
  · rw [Map.insert_of_ne _ _ hpath] at hq
    have hp := h p q node hpre hne hq
    have hpath' : p ≠ dir ++ [name] := by
      rintro rfl
      exact hname hp
    rw [Map.insert_of_ne _ _ hpath', hp]

/-- Nothing is below a file, so it can be taken out. -/
theorem IsTree.erase_file (h : fs.IsTree) {path : List String} {content : Bytes} {executable : Bool}
    (hfile : fs path = some (.file content executable)) : IsTree (fs.erase path) := by
  intro p q node hpre hne hq
  rcases Map.erase_eq_some hq with ⟨_, hq⟩
  have hp := h p q node hpre hne hq
  have hpath : p ≠ path := by
    rintro rfl
    rw [hfile] at hp
    cases hp
  rw [Map.erase_of_ne _ hpath, hp]

theorem IsTree.createNew_eq (h : fs.IsTree) (hdir : fs dir = some .dir) (name : String) :
    fs.createNew (dir ++ [name]) =
      match fs (dir ++ [name]) with
      | some _ => .ok none
      | none => .ok (some (fs.insert (dir ++ [name]) (.file [] false))) := by
  simp only [createNew, List.dropLast_concat, h.walk_eq hdir]

theorem IsTree.append_eq (h : fs.IsTree) {path : List String} {content : Bytes} {executable : Bool}
    (hfile : fs path = some (.file content executable)) (bs : Bytes) :
    fs.append path bs = .ok (fs.insert path (.file (content ++ bs) executable)) := by
  simp only [append, h.walk_eq hfile]

theorem IsTree.removeFile_eq (h : fs.IsTree) {path : List String} {content : Bytes}
    {executable : Bool} (hfile : fs path = some (.file content executable)) :
    fs.removeFile path = .ok (fs.erase path) := by
  simp only [removeFile, h.walk_eq hfile]

/-- A file is moved within its directory, in the place of a file or of nothing. -/
theorem IsTree.rename_eq (h : fs.IsTree) {src : List String} {content : Bytes} {executable : Bool}
    (hfile : fs src = some (.file content executable)) (hdir : fs dir = some .dir)
    (hname : fs (dir ++ [name]) ≠ some .dir) :
    fs.rename src (dir ++ [name]) =
      .ok ((fs.erase src).insert (dir ++ [name]) (.file content executable)) := by
  simp only [rename, h.walk_eq hfile, List.dropLast_concat, h.walk_eq hdir]

theorem IsTree.rename (h : fs.IsTree) {src : List String} {content : Bytes} {executable : Bool}
    (hfile : fs src = some (.file content executable)) (hdir : fs dir = some .dir)
    (hname : fs (dir ++ [name]) ≠ some .dir) :
    IsTree ((fs.erase src).insert (dir ++ [name]) (.file content executable)) := by
  have hsrc : dir ≠ src := by
    rintro rfl
    rw [hfile] at hdir
    cases hdir
  refine (h.erase_file hfile).insert_file ?_ ?_ content executable
  · rw [Map.erase_of_ne _ hsrc, hdir]
  · intro hnode
    exact hname (Map.erase_eq_some hnode).2

end Child

/-- The directories of a path can be made in a tree where no file is in the way. -/
theorem IsTree.createDirAll (h : fs.IsTree) {path : List String}
    (hfree : ∀ p, p <+: path → fs p = none ∨ fs p = some .dir) :
    ∃ fs' : Fs, fs.createDirAll [] path = .ok fs' ∧ fs'.IsTree ∧ fs' path = some .dir ∧
      ∀ p, KeptAt fs fs' p ∧ (¬ p <+: path → fs' p = fs p) := by
  have hway : ∀ p, [] <+: p → p <+: [] ++ path → fs p = none ∨ fs p = some .dir :=
    fun p _ hp => hfree p hp
  rcases createDirAll_eq hway with ⟨fs', hok, hdirs, hrest⟩
  refine ⟨fs', hok, ?_, hdirs path List.nil_prefix List.prefix_rfl, ?_⟩
  · intro p q node hpre hne hq
    by_cases hpath : q <+: path
    · exact hdirs p List.nil_prefix (hpre.trans hpath)
    · rw [hrest q (fun hq => hpath hq.2)] at hq
      exact (keptAt_of_createDirAll hok p).eq_some (h p q node hpre hne hq)
  · intro p
    exact ⟨keptAt_of_createDirAll hok p, fun hpath => hrest p (fun hp => hpath hp.2)⟩

/-- Where `create_dir_all` succeeds no file was in the way. -/
theorem free_of_createDirAll {rest : List String} {fs fs' : Fs} {done : List String}
    (h : fs.createDirAll done rest = .ok fs') {p : List String} (hp : done <+: p)
    (hpre : p <+: done ++ rest) : fs p = none ∨ fs p = some .dir := by
  induction rest generalizing fs done with
  | nil =>
      rw [List.append_nil] at hpre
      obtain rfl := hp.eq_of_length_le hpre.length_le
      unfold createDirAll at h
      split at h
      · rename_i hdir
        exact Or.inr hdir
      · cases h
      · rename_i hnone
        exact Or.inl hnone
  | cons c rest ih =>
      -- The directory reached so far, or something below it.
      by_cases hdone : p = done
      · subst hdone
        unfold createDirAll at h
        split at h
        · rename_i hdir
          exact Or.inr hdir
        · cases h
        · rename_i hnone
          exact Or.inl hnone
      · have hbelow : done ++ [c] <+: p := by
          obtain ⟨tail, rfl⟩ := hp
          cases tail with
          | nil => simp at hdone
          | cons a tail =>
              rw [List.prefix_append_right_inj] at hpre
              obtain ⟨rfl, -⟩ := List.cons_prefix_cons.1 hpre
              exact (List.prefix_append_right_inj _).2 (by simp)
        have hpre' : p <+: done ++ [c] ++ rest := by simpa using hpre
        unfold createDirAll at h
        split at h
        · exact ih h hbelow hpre'
        · cases h
        · have hfree := ih h hbelow hpre'
          rwa [Map.insert_of_ne _ _ hdone] at hfree

/-- `create_dir_all` in a tree, when it succeeds. -/
theorem IsTree.createDirAll_ok (h : fs.IsTree) {fs' : Fs} {path : List String}
    (hok : fs.createDirAll [] path = .ok fs') :
    fs'.IsTree ∧ fs' path = some .dir ∧ ∀ p, KeptAt fs fs' p ∧ (¬ p <+: path → fs' p = fs p) := by
  have hfree : ∀ p, p <+: path → fs p = none ∨ fs p = some .dir := fun p hp =>
    free_of_createDirAll hok List.nil_prefix hp
  rcases h.createDirAll hfree with ⟨made, hmade, hrest⟩
  rw [hok] at hmade
  cases hmade
  exact hrest

end Fs

end Lib
end Aivcs
