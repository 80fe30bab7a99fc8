import Aivcs.Lib.Digest
import Aivcs.Lib.Fs
import Aivcs.Lib.Pool

/-!
# Cas.FsCasStore — the content-addressed store on a file system

`aivcs_core::cas`: blobs under `<root>/objects/<2 digits>/<62 digits>`.  A `put` writes a temporary file in
the directory of its blob and renames it, retrying a rename that fails for a transient reason; each of its
system calls is one turn, and puts take their turns in any order.  A put that is never scheduled again has
crashed where it stands.

What the operating system answers is part of a put: `calls` for the calls up to the end of the writing,
`names` for the random names it draws, `renames` for the errors its renames meet and `removal` for the
removal of the temporary file of a put that fails.

`turn_call` says once what a call can do; the rest of the module is what each of these moves keeps: the
store (`Moves.sound`), what is known of the put (`Moves.standing`) and of the others (`Moves.others`).
-/

namespace Aivcs
namespace Cas

open Lib

/-- `io::ErrorKind`, as far as this code or the calls it makes tell kinds apart. -/
inductive ErrorKind
  | notFound
  | permissionDenied
  | alreadyExists
  | interrupted
  | writeZero
  | other
  | raw (errno : Nat)
  deriving DecidableEq

/-- A SHA-256 digest. -/
structure Digest where
  bytes : Bytes
  length_eq : bytes.length = 32
  deriving DecidableEq

inductive CasError
  | notFound (digest : Digest)
  | invalidDigest (s : String)
  | io (kind : ErrorKind)
  deriving DecidableEq

/-- `Digest::to_hex`, which is also what `Display` writes. -/
def Digest.toHex (d : Digest) : String :=
  String.ofList (hexChars d.bytes)

/-- `FromStr for Digest`. -/
def Digest.fromStr (s : String) : Except CasError Digest :=
  match readHexChars s.toList with
  | none => .error (.invalidDigest s)
  | some bytes =>
      if h : bytes.length = 32 then .ok ⟨bytes, h⟩ else .error (.invalidDigest s)

/-- A text is a digest's exactly when its lowercase form is the one that is displayed. -/
theorem Digest.fromStr_eq_ok_iff {s : String} {d : Digest} :
    Digest.fromStr s = .ok d ↔ s.toList.map Char.toLower = d.toHex.toList := by
  rw [Digest.toHex, String.toList_ofList, ← readHexChars_iff]
  unfold Digest.fromStr
  cases hread : readHexChars s.toList with
  | none =>
      simp
  | some bytes =>
      constructor
      · intro h
        simp only at h
        split at h
        · cases h
          rfl
        · cases h
      · intro h
        obtain rfl := Option.some.inj h
        simp only [d.length_eq, dite_true]

/-- `FsCasStore`. -/
structure FsCasStore where
  objectsDir : List String
  deriving DecidableEq

namespace FsCasStore

/-- What the kinds of `FsError` are to a caller. -/
def kindOf : FsError → ErrorKind
  | .notFound => .notFound
  | .notADirectory => .raw 20
  | .isADirectory => .raw 21

/-- `FsCasStore::new`. -/
def new (root : List String) (fs : Fs) : Except CasError (FsCasStore × Fs) :=
  let objectsDir := root ++ ["objects"]
  match fs.createDirAll [] objectsDir with
  | .error e => .error (.io (kindOf e))
  | .ok fs => .ok (⟨objectsDir⟩, fs)

variable (store : FsCasStore)

def shardDir (digest : Digest) : List String :=
  store.objectsDir ++ [String.ofList ((hexChars digest.bytes).take 2)]

/-- `blob_path`: the first two digits name the directory, the others the file. -/
def blobPath (digest : Digest) : List String :=
  store.shardDir digest ++ [String.ofList ((hexChars digest.bytes).drop 2)]

/-- `CasStore::get`. -/
def get (fs : Fs) (digest : Digest) : Except CasError Bytes :=
  match fs.read (store.blobPath digest) with
  | .ok blob => .ok blob
  | .error .notFound => .error (.notFound digest)
  | .error e => .error (.io (kindOf e))

/-- `CasStore::exists`. -/
def exists? (fs : Fs) (digest : Digest) : Bool :=
  fs.exists? (store.blobPath digest)

/-! ## A put and its system calls -/

/-- The answer of the operating system to one call; a write may take only some of the bytes. -/
inductive Answer
  | whole
  | short (n : Nat)
  | error (kind : ErrorKind)
  deriving DecidableEq

/-- The random part of a name that `NamedTempFile` makes. -/
structure TempName where
  random : String
  deriving DecidableEq

def tempPath (digest : Digest) (name : TempName) : List String :=
  store.shardDir digest ++ [".tmp" ++ name.random]

/-- Where a put stands: the call it makes next, or how it ended. -/
inductive Phase
  | lookup
  | shard
  | create
  | write (name : TempName) (rest : Bytes)
  | persist (name : TempName) (attempts : Nat)
  | remove (name : TempName) (error : CasError)
  | ended (result : Except CasError Digest)
  deriving DecidableEq

structure Put where
  data : Bytes
  calls : List Answer
  names : List TempName
  renames : List ErrorKind
  removal : Bool
  phase : Phase
  deriving DecidableEq

/-- A put that has not made a call yet. -/
def Put.start (data : Bytes) (calls : List Answer) (names : List TempName) (renames : List ErrorKind)
    (removal : Bool) : Put :=
  ⟨data, calls, names, renames, removal, .lookup⟩

/-- The answer to the next call; when none is given the call does what it is to do. -/
def Put.answer (t : Put) : Answer :=
  t.calls.head?.getD .whole

/-- On to the next phase after a call. -/
def Put.goTo (t : Put) (phase : Phase) : Put :=
  { t with calls := t.calls.tail, phase := phase }

/-- The bytes a write takes. -/
def taken (rest : Bytes) : Answer → Bytes
  | .short n => rest.take n
  | _ => rest

/-- Only these two kinds of a rename's failure are worth another attempt. -/
def transient (kind : ErrorKind) : Bool :=
  kind == .permissionDenied || kind == .other

/-- The arms of the retry loop for a rename that failed. -/
def notPersisted (name : TempName) (attempts : Nat) (kind : ErrorKind) : Phase :=
  if attempts < 3 then
    if transient kind then .persist name (attempts + 1) else .remove name (.io kind)
  else
    .remove name (.io kind)

section Turn

variable (compute : Bytes → Digest)

/-- One call of `CasStore::put`. -/
def turn (_ : Nat) (t : Put) (fs : Fs) : Option (Put × Fs) :=
  let digest := compute t.data
  match t.phase with
  | .lookup =>
      match t.answer with
      -- `Path::exists` is false where the path cannot be examined.
      | .error _ => some (t.goTo .shard, fs)
      | _ => some (t.goTo (if store.exists? fs digest then .ended (.ok digest) else .shard), fs)
  | .shard =>
      match t.answer with
      | .error kind => some (t.goTo (.ended (.error (.io kind))), fs)
      | _ =>
          match fs.createDirAll [] (store.shardDir digest) with
          | .error e => some (t.goTo (.ended (.error (.io (kindOf e)))), fs)
          | .ok fs => some (t.goTo .create, fs)
  | .create =>
      match t.answer with
      | .error kind => some (t.goTo (.ended (.error (.io kind))), fs)
      | _ =>
          match t.names with
          | [] => some (t.goTo (.ended (.error (.io .alreadyExists))), fs)
          | name :: names =>
              match fs.createNew (store.tempPath digest name) with
              | .error e => some (t.goTo (.ended (.error (.io (kindOf e)))), fs)
              -- The name is taken: `NamedTempFile` draws another one.
              | .ok none => some ({ t with names := names }.goTo .create, fs)
              | .ok (some fs) => some ({ t with names := names }.goTo (.write name t.data), fs)
  | .write name [] => some ({ t with phase := .persist name 0 }, fs)
  | .write name rest =>
      match t.answer with
      | .error .interrupted => some (t.goTo t.phase, fs)
      | .error kind => some (t.goTo (.remove name (.io kind)), fs)
      | .short 0 => some (t.goTo (.remove name (.io .writeZero)), fs)
      | answer =>
          match fs.append (store.tempPath digest name) (taken rest answer) with
          | .error e => some (t.goTo (.remove name (.io (kindOf e))), fs)
          | .ok fs => some (t.goTo (.write name (rest.drop (taken rest answer).length)), fs)
  | .persist name attempts =>
      match t.renames with
      | kind :: renames =>
          some ({ t with renames := renames, phase := notPersisted name attempts kind }, fs)
      | [] =>
          match fs.rename (store.tempPath digest name) (store.blobPath digest) with
          | .error e => some ({ t with phase := notPersisted name attempts (kindOf e) }, fs)
          | .ok fs => some ({ t with phase := .ended (.ok digest) }, fs)
  | .remove name error =>
      -- The temporary file is dropped with the put; a failure to remove it is ignored.
      match t.removal, fs.removeFile (store.tempPath digest name) with
      | true, .ok fs => some ({ t with phase := .ended (.error error) }, fs)
      | _, _ => some ({ t with phase := .ended (.error error) }, fs)
  | .ended _ => none

end Turn

/-! ## Where blobs and temporary files are -/

section Paths

variable {store} {d d' : Digest} {name : TempName}

@[simp] theorem length_shardDir : (store.shardDir d).length = store.objectsDir.length + 1 := by
  simp [shardDir]

@[simp] theorem length_blobPath : (store.blobPath d).length = store.objectsDir.length + 2 := by
  simp [blobPath]

@[simp] theorem length_tempPath : (store.tempPath d name).length = store.objectsDir.length + 2 := by
  simp [tempPath]

theorem blobPath_injective : Function.Injective store.blobPath := by
  intro d d' h
  simp only [blobPath, shardDir, List.append_assoc, List.append_cancel_left_eq, List.cons_append,
    List.nil_append, List.cons.injEq, and_true, String.ofList_inj] at h
  have hchars : hexChars d.bytes = hexChars d'.bytes := by
    rw [← List.take_append_drop 2 (hexChars d.bytes), h.1, h.2, List.take_append_drop]
  cases d
  cases d'
  simpa using hexChars_injective hchars

/-- A temporary name begins with a dot, the name of a blob is made of digits. -/
theorem tempPath_ne_blobPath : store.tempPath d name ≠ store.blobPath d' := by
  intro h
  have hlast := (List.append_inj_right' h rfl)
  have hchars := congrArg String.toList (List.cons.inj hlast).1
  rw [String.toList_ofList, String.toList_append] at hchars
  have hdot : '.' ∈ (hexChars d'.bytes).drop 2 := by
    rw [← hchars]
    simp
  exact dot_notMem_hexChars _ (List.mem_of_mem_drop hdot)

theorem not_below_shardDir {p : List String} (hp : store.objectsDir.length + 2 ≤ p.length) :
    ¬ p <+: store.shardDir d := by
  intro h
  have := h.length_le
  rw [length_shardDir] at this
  omega

theorem shardDir_ne {p : List String} (hp : p.length = store.objectsDir.length + 2) :
    store.shardDir d ≠ p := by
  rintro rfl
  rw [length_shardDir] at hp
  omega

theorem objectsDir_ne {p : List String} (hp : p.length = store.objectsDir.length + 2) :
    store.objectsDir ≠ p := by
  rintro rfl
  omega

end Paths

/-! ## What a store is -/

section Sound

variable (compute : Bytes → Digest)

/-- A directory tree in which whatever is at the path of a blob is a file that has the digest. -/
structure Sound (fs : Fs) : Prop where
  tree : fs.IsTree
  root : fs store.objectsDir = some .dir
  shard : ∀ d, fs (store.shardDir d) = none ∨ fs (store.shardDir d) = some .dir
  blob : ∀ d node, fs (store.blobPath d) = some node →
    ∃ content executable, node = .file content executable ∧ compute content = d

variable {store compute} {fs : Fs} {d : Digest}

/-- On the way to a blob there are directories or nothing. -/
theorem Sound.on_way (h : Sound store compute fs) {p : List String} (hp : p <+: store.shardDir d) :
    fs p = none ∨ fs p = some .dir := by
  rw [shardDir, List.prefix_concat_iff, ← shardDir] at hp
  rcases hp with rfl | hp
  · exact h.shard d
  · by_cases heq : p = store.objectsDir
    · exact Or.inr (heq ▸ h.root)
    · exact Or.inr (h.tree p _ _ hp heq h.root)

/-- In a store a blob is there, with its digest, or missing; no other error is met. -/
theorem Sound.get_cases (h : Sound store compute fs) (d : Digest) :
    (fs (store.blobPath d) = none ∧ store.get fs d = .error (.notFound d)) ∨
    ∃ content executable, fs (store.blobPath d) = some (.file content executable) ∧
      compute content = d ∧ store.get fs d = .ok content := by
  cases hnode : fs (store.blobPath d) with
  | none =>
      left
      have hfile : ∀ p content executable, p <+: store.blobPath d →
          fs p ≠ some (.file content executable) := by
        intro p content executable hp hfile
        rw [blobPath, List.prefix_concat_iff, ← blobPath] at hp
        rcases hp with rfl | hp
        · rw [hnode] at hfile
          cases hfile
        · rcases h.on_way hp with hway | hway <;> (rw [hway] at hfile; cases hfile)
      refine ⟨rfl, ?_⟩
      simp only [get, h.tree.read_eq_notFound hnode hfile]
  | some node =>
      right
      rcases h.blob d node hnode with ⟨content, executable, rfl, hd⟩
      refine ⟨content, executable, rfl, hd, ?_⟩
      simp only [get, Fs.read, h.tree.walk_eq hnode]

theorem Sound.blob_ne_dir (h : Sound store compute fs) (d : Digest) :
    fs (store.blobPath d) ≠ some .dir := by
  intro hdir
  rcases h.blob d _ hdir with ⟨content, executable, heq, -⟩
  cases heq

end Sound

/-! ## What one call does -/

section Moves

variable (compute : Bytes → Digest)

/-- The temporary file a put owns. -/
def tempPath? (t : Put) : Option (List String) :=
  match t.phase with
  | .write name _ | .persist name _ | .remove name _ =>
      some (store.tempPath (compute t.data) name)
  | _ => none

/-- What is known of the disk where a put stands: of its temporary file as long as it has one. -/
def Standing (t : Put) (fs : Fs) : Prop :=
  match t.phase with
  | .create => fs (store.shardDir (compute t.data)) = some .dir
  | .write name rest =>
      ∃ written executable, written ++ rest = t.data ∧
        fs (store.tempPath (compute t.data) name) = some (.file written executable)
  | .persist name _ =>
      ∃ executable, fs (store.tempPath (compute t.data) name) = some (.file t.data executable)
  | .remove name _ =>
      ∃ content executable,
        fs (store.tempPath (compute t.data) name) = some (.file content executable)
  | .ended (.ok digest) =>
      digest = compute t.data ∧ (fs (store.blobPath digest)).isSome = true
  | _ => True

/-- The ways from one phase to the next, with what each does to the disk. -/
inductive Moves (t : Put) (fs : Fs) : Phase → Fs → Prop
  | found (hphase : t.phase = .lookup)
      (hblob : (fs (store.blobPath (compute t.data))).isSome = true) :
      Moves t fs (.ended (.ok (compute t.data))) fs
  | missed (hphase : t.phase = .lookup) : Moves t fs .shard fs
  | made {fs' : Fs} (hphase : t.phase = .shard) (htree : fs'.IsTree)
      (hdir : fs' (store.shardDir (compute t.data)) = some .dir)
      (hkept : ∀ p, Fs.KeptAt fs fs' p)
      (hother : ∀ p, ¬ p <+: store.shardDir (compute t.data) → fs' p = fs p) :
      Moves t fs .create fs'
  | created {name : TempName} (hphase : t.phase = .create) (hname : name ∈ t.names)
      (hfree : fs (store.tempPath (compute t.data) name) = none) :
      Moves t fs (.write name t.data)
        (fs.insert (store.tempPath (compute t.data) name) (.file [] false))
  | wrote {name : TempName} {bs rest written : Bytes} {executable : Bool}
      (hphase : t.phase = .write name (bs ++ rest))
      (htemp : fs (store.tempPath (compute t.data) name) = some (.file written executable)) :
      Moves t fs (.write name rest)
        (fs.insert (store.tempPath (compute t.data) name) (.file (written ++ bs) executable))
  | complete {name : TempName} (hphase : t.phase = .write name []) : Moves t fs (.persist name 0) fs
  | retried {name : TempName} {attempts : Nat} (hphase : t.phase = .persist name attempts)
      (hfew : attempts < 3) : Moves t fs (.persist name (attempts + 1)) fs
  | persisted {name : TempName} {attempts : Nat} {executable : Bool}
      (hphase : t.phase = .persist name attempts)
      (htemp : fs (store.tempPath (compute t.data) name) = some (.file t.data executable)) :
      Moves t fs (.ended (.ok (compute t.data)))
        ((fs.erase (store.tempPath (compute t.data) name)).insert
          (store.blobPath (compute t.data)) (.file t.data executable))
  | gaveUp {name : TempName} {error : CasError}
      (hphase : (∃ rest, t.phase = .write name rest) ∨ ∃ attempts, t.phase = .persist name attempts) :
      Moves t fs (.remove name error) fs
  | removed {name : TempName} {error : CasError} {content : Bytes} {executable : Bool}
      (hphase : t.phase = .remove name error)
      (htemp : fs (store.tempPath (compute t.data) name) = some (.file content executable)) :
      Moves t fs (.ended (.error error)) (fs.erase (store.tempPath (compute t.data) name))
  | abandoned {name : TempName} {error : CasError} (hphase : t.phase = .remove name error)
      (hremoval : t.removal = false) : Moves t fs (.ended (.error error)) fs
  | failed {error : CasError} (hphase : t.phase = .shard ∨ t.phase = .create) :
      Moves t fs (.ended (.error error)) fs
  | waited {phase : Phase} (hphase : t.phase = phase) : Moves t fs phase fs

variable {store compute} {t t' : Put} {fs fs' : Fs} {i : Nat}

/-- What a write takes and what it leaves is what there was to write. -/
theorem taken_append (rest : Bytes) (answer : Answer) :
    taken rest answer ++ rest.drop (taken rest answer).length = rest := by
  cases answer with
  | short n =>
      simp only [taken, List.length_take]
      by_cases hn : n ≤ rest.length
      · rw [Nat.min_eq_left hn, List.take_append_drop]
      · simp [List.take_of_length_le (Nat.le_of_not_le hn), Nat.le_of_not_le hn]
  | whole => simp [taken]
  | error kind => simp [taken]

theorem notPersisted_moves {name : TempName} {attempts : Nat} (kind : ErrorKind)
    (hphase : t.phase = .persist name attempts) :
    Moves store compute t fs (notPersisted name attempts kind) fs := by
  unfold notPersisted
  split
  · rename_i hfew
    split
    · exact .retried hphase hfew
    · exact .gaveUp (Or.inr ⟨attempts, hphase⟩)
  · exact .gaveUp (Or.inr ⟨attempts, hphase⟩)

variable (store compute) in
/-- What a call changes of a put beside its phase. -/
structure Call (t t' : Put) (fs fs' : Fs) : Prop where
  data : t'.data = t.data
  removal : t'.removal = t.removal
  names : t'.names ⊆ t.names
  moves : Moves store compute t fs t'.phase fs'

/-- Every call is one of the moves. -/
theorem turn_call (hs : Sound store compute fs) (ht : Standing store compute t fs)
    (hturn : turn store compute i t fs = some (t', fs')) :
    Call store compute t t' fs fs' := by
  unfold turn at hturn
  -- In each phase a call may fail; `Standing` says what it finds where it does not.
  cases hphase : t.phase with
  | lookup =>
      simp only [hphase] at hturn
      split at hturn
      · cases hturn
        exact ⟨rfl, rfl, List.Subset.refl _, .missed hphase⟩
      · cases hturn
        refine ⟨rfl, rfl, List.Subset.refl _, ?_⟩
        by_cases hfound : store.exists? fs (compute t.data) = true
        · simp only [Put.goTo, hfound, if_true]
          exact .found hphase (hs.tree.exists?_iff.1 hfound)
        · simp only [Put.goTo, hfound, Bool.false_eq_true, if_false]
          exact .missed hphase
  | shard =>
      simp only [hphase] at hturn
      split at hturn
      · cases hturn
        exact ⟨rfl, rfl, List.Subset.refl _, .failed (Or.inl hphase)⟩
      · have hway : ∀ p, p <+: store.shardDir (compute t.data) → fs p = none ∨ fs p = some .dir :=
          fun p hp => hs.on_way hp
        obtain ⟨made, hmk, htree, hdir, hkept⟩ := hs.tree.createDirAll hway
        simp only [hmk] at hturn
        cases hturn
        exact ⟨rfl, rfl, List.Subset.refl _,
          .made hphase htree hdir (fun p => (hkept p).1) (fun p => (hkept p).2)⟩
  | create =>
      simp only [hphase] at hturn
      simp only [Standing, hphase] at ht
      split at hturn
      · cases hturn
        exact ⟨rfl, rfl, List.Subset.refl _, .failed (Or.inr hphase)⟩
      · -- The names are used up, or one is drawn, which may be taken.
        split at hturn
        · cases hturn
          exact ⟨rfl, rfl, List.Subset.refl _, .failed (Or.inr hphase)⟩
        · rename_i name names hnames
          rw [tempPath, hs.tree.createNew_eq ht, ← tempPath] at hturn
          cases hfree : fs (store.tempPath (compute t.data) name) with
          | some node =>
              simp only [hfree] at hturn
              cases hturn
              exact ⟨rfl, rfl, hnames ▸ List.subset_cons_self _ _, .waited hphase⟩
          | none =>
              simp only [hfree] at hturn
              cases hturn
              exact ⟨rfl, rfl, hnames ▸ List.subset_cons_self _ _,
                .created hphase (hnames ▸ List.mem_cons_self) hfree⟩
  | write name rest =>
      simp only [Standing, hphase] at ht
      obtain ⟨written, executable, hdata, htemp⟩ := ht
      cases rest with
      | nil =>
          -- Everything is written.
          simp only [hphase] at hturn
          cases hturn
          exact ⟨rfl, rfl, List.Subset.refl _, .complete hphase⟩
      | cons byte rest =>
          simp only [hphase] at hturn
          split at hturn
          · cases hturn
            exact ⟨rfl, rfl, List.Subset.refl _, .waited hphase⟩
          · cases hturn
            exact ⟨rfl, rfl, List.Subset.refl _, .gaveUp (Or.inl ⟨_, hphase⟩)⟩
          · cases hturn
            exact ⟨rfl, rfl, List.Subset.refl _, .gaveUp (Or.inl ⟨_, hphase⟩)⟩
          · simp only [hs.tree.append_eq htemp] at hturn
            cases hturn
            refine ⟨rfl, rfl, List.Subset.refl _, .wrote ?_ htemp⟩
            rw [hphase, taken_append]
  | persist name attempts =>
      simp only [hphase] at hturn
      simp only [Standing, hphase] at ht
      obtain ⟨executable, htemp⟩ := ht
      split at hturn
      · cases hturn
        exact ⟨rfl, rfl, List.Subset.refl _, notPersisted_moves _ hphase⟩
      · have hdir : fs (store.shardDir (compute t.data)) = some .dir :=
          hs.tree _ _ _ (List.prefix_append _ _) (Fs.child_ne _ _) htemp
        have hblob : fs (store.blobPath (compute t.data)) ≠ some .dir := hs.blob_ne_dir _
        rw [blobPath] at hblob
        simp only [blobPath, hs.tree.rename_eq htemp hdir hblob] at hturn
        cases hturn
        exact ⟨rfl, rfl, List.Subset.refl _, .persisted hphase htemp⟩
  | remove name error =>
      simp only [hphase] at hturn
      simp only [Standing, hphase] at ht
      obtain ⟨content, executable, htemp⟩ := ht
      simp only [hs.tree.removeFile_eq htemp] at hturn
      cases hremoval : t.removal with
      | true =>
          simp only [hremoval] at hturn
          cases hturn
          exact ⟨rfl, hremoval.symm, List.Subset.refl _, .removed hphase htemp⟩
      | false =>
          simp only [hremoval] at hturn
          cases hturn
          exact ⟨rfl, hremoval.symm, List.Subset.refl _, .abandoned hphase hremoval⟩
  | ended result =>
      simp only [hphase] at hturn
      cases hturn

/-! ## What a call leaves alone -/

/-- A temporary file that a call makes has a name the put has drawn and that was free. -/
theorem Moves.temp (hm : Moves store compute t fs t'.phase fs') (hdata : t'.data = t.data)
    {q : List String} (hq : tempPath? store compute t' = some q) :
    tempPath? store compute t = some q ∨
      (fs q = none ∧ ∃ name ∈ t.names, q = store.tempPath (compute t.data) name) := by
  unfold tempPath? at hq ⊢
  rw [hdata] at hq
  generalize hphase' : t'.phase = phase' at hm hq
  -- Only `created` draws a name; the other moves keep the file or end without one.
  cases hm with
  | found _ _ => cases hq
  | missed _ => cases hq
  | made _ _ _ _ _ => cases hq
  | created hphase hname hfree =>
      obtain rfl := Option.some.inj hq
      exact Or.inr ⟨hfree, _, hname, rfl⟩
  | wrote hphase htemp =>
      rw [hphase]
      exact Or.inl hq
  | complete hphase =>
      rw [hphase]
      exact Or.inl hq
  | retried hphase _ =>
      rw [hphase]
      exact Or.inl hq
  | persisted _ _ => cases hq
  | gaveUp hphase =>
      rcases hphase with ⟨rest, hphase⟩ | ⟨attempts, hphase⟩
      all_goals
        rw [hphase]
        exact Or.inl hq
  | removed _ _ => cases hq
  | abandoned _ _ => cases hq
  | failed _ => cases hq
  | waited hphase =>
      rw [hphase]
      exact Or.inl hq

/-- A call keeps every path that is neither its temporary file, before or after, nor its blob. -/
theorem Moves.frame (hm : Moves store compute t fs t'.phase fs') (hdata : t'.data = t.data)
    {p : List String} (hown : tempPath? store compute t ≠ some p)
    (hnew : tempPath? store compute t' ≠ some p) (hblob : p ≠ store.blobPath (compute t.data)) :
    Fs.KeptAt fs fs' p ∧ (¬ p <+: store.shardDir (compute t.data) → fs' p = fs p) := by
  have hsame : fs' p = fs p →
      Fs.KeptAt fs fs' p ∧ (¬ p <+: store.shardDir (compute t.data) → fs' p = fs p) :=
    fun heq => ⟨Or.inl heq, fun _ => heq⟩
  unfold tempPath? at hown hnew
  rw [hdata] at hnew
  generalize hphase' : t'.phase = phase' at hm hnew
  -- A move inserts or erases at its own paths only, but for `made`, which may make directories.
  cases hm with
  | made _ _ _ hkept hother => exact ⟨hkept p, hother p⟩
  | created _ _ _ =>
      refine hsame (Map.insert_of_ne _ _ ?_)
      rintro rfl
      exact hnew rfl
  | wrote hphase _ =>
      refine hsame (Map.insert_of_ne _ _ ?_)
      rintro rfl
      exact hnew rfl
  | persisted hphase _ =>
      refine hsame ((Map.insert_of_ne _ _ hblob).trans (Map.erase_of_ne _ ?_))
      rintro rfl
      rw [hphase] at hown
      exact hown rfl
  | removed hphase _ =>
      refine hsame (Map.erase_of_ne _ ?_)
      rintro rfl
      rw [hphase] at hown
      exact hown rfl
  | found _ _ | missed _ | complete _ | retried _ _ | gaveUp _ | abandoned _ _ | failed _ | waited _ =>
      exact hsame rfl

theorem tempPath?_eq_some {q : List String} (hq : tempPath? store compute t = some q) :
    ∃ name, q = store.tempPath (compute t.data) name := by
  unfold tempPath? at hq
  split at hq
  all_goals first | exact ⟨_, (Option.some.inj hq).symm⟩ | cases hq

theorem tempPath?_ne {p : List String} (hp : ∀ d name, store.tempPath d name ≠ p) :
    tempPath? store compute t ≠ some p := by
  intro hq
  obtain ⟨name, rfl⟩ := tempPath?_eq_some hq
  exact hp _ _ rfl

/-- No temporary file has the name of a directory or of a blob. -/
theorem tempPath_ne {p : List String}
    (hp : p = store.objectsDir ∨ (∃ d, p = store.shardDir d) ∨ ∃ d, p = store.blobPath d) (d : Digest)
    (name : TempName) : store.tempPath d name ≠ p := by
  rcases hp with rfl | ⟨d', rfl⟩ | ⟨d', rfl⟩
  · exact (objectsDir_ne length_tempPath).symm
  · exact (shardDir_ne length_tempPath).symm
  · exact tempPath_ne_blobPath

/-- A blob that is there stays there. -/
theorem Moves.isSome_blob (hm : Moves store compute t fs t'.phase fs') (hdata : t'.data = t.data)
    {d : Digest} (h : (fs (store.blobPath d)).isSome = true) :
    (fs' (store.blobPath d)).isSome = true := by
  by_cases hd : store.blobPath d = store.blobPath (compute t.data)
  · rw [hd] at h ⊢
    generalize t'.phase = phase' at hm
    cases hm with
    | made _ _ _ hkept _ =>
        obtain ⟨node, hnode⟩ := Option.isSome_iff_exists.1 h
        rw [(hkept _).eq_some hnode]
        rfl
    | created _ _ _ | wrote _ _ => rwa [Map.insert_of_ne _ _ tempPath_ne_blobPath.symm]
    | persisted _ _ => rw [Map.insert_self]; rfl
    | removed _ _ => rwa [Map.erase_of_ne _ tempPath_ne_blobPath.symm]
    | found _ _ | missed _ | complete _ | retried _ _ | gaveUp _ | abandoned _ _ | failed _ | waited _ =>
        exact h
  · obtain ⟨node, hnode⟩ := Option.isSome_iff_exists.1 h
    have hne := tempPath_ne (p := store.blobPath d) (Or.inr (Or.inr ⟨d, rfl⟩))
    rw [(hm.frame hdata (tempPath?_ne hne) (tempPath?_ne hne) hd).1.eq_some hnode]
    rfl

/-- A blob that is there after a call was there before it, or holds the data of the put. -/
theorem Moves.blob (hm : Moves store compute t fs t'.phase fs') {d : Digest} {content : Bytes}
    {executable : Bool} (hfile : fs' (store.blobPath d) = some (.file content executable)) :
    content = t.data ∨ fs (store.blobPath d) = some (.file content executable) := by
  generalize t'.phase = phase' at hm
  cases hm with
  | made _ _ _ hkept _ =>
      exact Or.inr ((hkept _).of_file hfile)
  | created _ _ _ | wrote _ _ =>
      rw [Map.insert_of_ne _ _ tempPath_ne_blobPath.symm] at hfile
      exact Or.inr hfile
  | persisted _ _ =>
      rcases Map.insert_eq_some hfile with ⟨-, hnode⟩ | ⟨_, hold⟩
      · cases hnode
        exact Or.inl rfl
      · exact Or.inr (Map.erase_eq_some hold).2
  | removed _ _ =>
      exact Or.inr (Map.erase_eq_some hfile).2
  | found _ _ | missed _ | complete _ | retried _ _ | gaveUp _ | abandoned _ _ | failed _ | waited _ =>
      exact Or.inr hfile

/-- A put that is about to end without its temporary file being removed. -/
def Abandons (t : Put) : Prop :=
  t.removal = false ∧ ∃ name error, t.phase = .remove name error

/-- Where a file comes from that is there after a call: it is the put's temporary file or its blob, or its
temporary file and could not be removed, or it was there and is not the put's. -/
theorem Moves.file (hm : Moves store compute t fs t'.phase fs') (hdata : t'.data = t.data)
    {path : List String} {content : Bytes} {executable : Bool}
    (hfile : fs' path = some (.file content executable)) :
    tempPath? store compute t' = some path ∨
    (path = store.blobPath (compute t.data) ∧ t'.phase = .ended (.ok (compute t.data))) ∨
    (Abandons t ∧ tempPath? store compute t = some path) ∨
    (tempPath? store compute t ≠ some path ∧
      ∃ content executable, fs path = some (.file content executable)) := by
  -- A call that leaves the disk and the temporary file alone.
  have hsame : tempPath? store compute t' = tempPath? store compute t → fs' = fs →
      tempPath? store compute t' = some path ∨ (tempPath? store compute t ≠ some path ∧
        ∃ content executable, fs path = some (.file content executable)) := by
    intro htemp hfs
    rw [htemp, ← hfs]
    by_cases hq : tempPath? store compute t = some path
    · exact Or.inl hq
    · exact Or.inr ⟨hq, content, executable, hfile⟩
  unfold tempPath? at hsame ⊢
  rw [hdata] at hsame ⊢
  generalize t'.phase = phase' at hm hsame ⊢
  cases hm with
  | found hphase _ | missed hphase =>
      rw [hphase] at hsame ⊢
      exact Or.inr (Or.inr (Or.inr ⟨by simp, content, executable, hfile⟩))
  | made hphase _ _ hkept _ =>
      rw [hphase]
      exact Or.inr (Or.inr (Or.inr ⟨by simp, content, executable, (hkept path).of_file hfile⟩))
  | created hphase _ _ =>
      rw [hphase]
      rcases Map.insert_eq_some hfile with ⟨hpath, _⟩ | ⟨_, hold⟩
      · exact Or.inl (congrArg some hpath.symm)
      · exact Or.inr (Or.inr (Or.inr ⟨by simp, content, executable, hold⟩))
  | wrote hphase _ =>
      rw [hphase]
      rcases Map.insert_eq_some hfile with ⟨hpath, _⟩ | ⟨hne, hold⟩
      · exact Or.inl (congrArg some hpath.symm)
      · exact Or.inr (Or.inr (Or.inr ⟨fun heq => hne (Option.some.inj heq).symm, content, executable, hold⟩))
  | complete hphase | retried hphase _ =>
      rw [hphase] at hsame ⊢
      exact (hsame rfl rfl).imp_right (Or.inr ∘ Or.inr)
  | persisted hphase _ =>
      rw [hphase]
      rcases Map.insert_eq_some hfile with ⟨hpath, _⟩ | ⟨_, hold⟩
      · exact Or.inr (Or.inl ⟨hpath, rfl⟩)
      · obtain ⟨hne, hold⟩ := Map.erase_eq_some hold
        exact Or.inr (Or.inr (Or.inr ⟨fun heq => hne (Option.some.inj heq).symm, content, executable, hold⟩))
  | gaveUp hphase =>
      rcases hphase with ⟨rest, hphase⟩ | ⟨attempts, hphase⟩
      all_goals
        rw [hphase] at hsame ⊢
        exact (hsame rfl rfl).imp_right (Or.inr ∘ Or.inr)
  | removed hphase _ =>
      rw [hphase]
      obtain ⟨hne, hold⟩ := Map.erase_eq_some hfile
      exact Or.inr (Or.inr (Or.inr ⟨fun heq => hne (Option.some.inj heq).symm, content, executable, hold⟩))
  | @abandoned name _ hphase hremoval =>
      rw [hphase]
      by_cases hpath : store.tempPath (compute t.data) name = path
      · exact Or.inr (Or.inr (Or.inl ⟨⟨hremoval, _, _, hphase⟩, congrArg some hpath⟩))
      · exact Or.inr (Or.inr (Or.inr ⟨fun heq => hpath (Option.some.inj heq), content, executable, hfile⟩))
  | failed hphase =>
      rcases hphase with hphase | hphase
      all_goals
        rw [hphase]
        exact Or.inr (Or.inr (Or.inr ⟨by simp, content, executable, hfile⟩))
  | waited hphase =>
      rw [hphase] at hsame ⊢
      exact (hsame rfl rfl).imp_right (Or.inr ∘ Or.inr)

/-! ## What a call keeps -/

/-- Changes at a temporary file do not concern the store. -/
theorem Sound.of_eq_off (h : Sound store compute fs) (htree : fs'.IsTree) {d : Digest}
    {name : TempName} (hoff : ∀ p, p ≠ store.tempPath d name → fs' p = fs p) :
    Sound store compute fs' := by
  have hsame : ∀ p, (p = store.objectsDir ∨ (∃ d, p = store.shardDir d) ∨
      ∃ d, p = store.blobPath d) → fs' p = fs p := fun p hp => hoff p (tempPath_ne hp d name).symm
  refine ⟨htree, ?_, ?_, ?_⟩
  · rw [hsame _ (Or.inl rfl), h.root]
  · intro d'
    rw [hsame _ (Or.inr (Or.inl ⟨d', rfl⟩))]
    exact h.shard d'
  · intro d' node hnode
    rw [hsame _ (Or.inr (Or.inr ⟨d', rfl⟩))] at hnode
    exact h.blob d' node hnode

/-- A file at the path of its digest is a blob. -/
theorem Sound.insert_blob (h : Sound store compute fs) {content : Bytes}
    (hdir : fs (store.shardDir (compute content)) = some .dir) (executable : Bool) :
    Sound store compute
      (fs.insert (store.blobPath (compute content)) (.file content executable)) := by
  refine ⟨h.tree.insert_file hdir (h.blob_ne_dir _) _ _, ?_, ?_, ?_⟩
  · rw [Map.insert_of_ne _ _ (objectsDir_ne length_blobPath), h.root]
  · intro d
    rw [Map.insert_of_ne _ _ (shardDir_ne length_blobPath)]
    exact h.shard d
  · intro d node hnode
    rcases Map.insert_eq_some hnode with ⟨hpath, rfl⟩ | ⟨-, hnode⟩
    · exact ⟨content, executable, rfl, (blobPath_injective hpath).symm⟩
    · exact h.blob d node hnode

theorem Moves.sound {phase : Phase} (hs : Sound store compute fs) (ht : Standing store compute t fs)
    (hm : Moves store compute t fs phase fs') : Sound store compute fs' := by
  cases hm with
  | made _ htree hdir hkept hother =>
      refine ⟨htree, (hkept _).eq_some hs.root, ?_, ?_⟩
      · intro d
        rcases hkept (store.shardDir d) with heq | ⟨-, hdir⟩
        · rw [heq]
          exact hs.shard d
        · exact Or.inr hdir
      · intro d node hnode
        rw [hother _ (not_below_shardDir (Nat.le_of_eq length_blobPath.symm))] at hnode
        exact hs.blob d node hnode
  | created hphase _ hfree =>
      simp only [Standing, hphase] at ht
      exact hs.of_eq_off (hs.tree.insert_file ht (by rw [← tempPath, hfree]; simp) _ _)
        (fun p hp => Map.insert_of_ne _ _ hp)
  | wrote hphase htemp =>
      have hdir := hs.tree _ _ _ (List.prefix_append _ _) (Fs.child_ne _ _) htemp
      exact hs.of_eq_off (hs.tree.insert_file hdir (by rw [← tempPath, htemp]; simp) _ _)
        (fun p hp => Map.insert_of_ne _ _ hp)
  | persisted hphase htemp =>
      -- The rename is an erasure and an insertion in one step.
      have hdir := hs.tree _ _ _ (List.prefix_append _ _) (Fs.child_ne _ _) htemp
      have herased := hs.of_eq_off (hs.tree.erase_file htemp) (fun p hp => Map.erase_of_ne _ hp)
      refine herased.insert_blob ?_ _
      rwa [Map.erase_of_ne _ (shardDir_ne length_tempPath)]
  | removed hphase htemp =>
      exact hs.of_eq_off (hs.tree.erase_file htemp) (fun p hp => Map.erase_of_ne _ hp)
  | found _ _ | missed _ | complete _ | retried _ _ | gaveUp _ | abandoned _ _ | failed _ | waited _ =>
      exact hs

theorem Moves.outside {phase : Phase} (hs : Sound store compute fs)
    (hm : Moves store compute t fs phase fs') {path : List String}
    (hout : ¬ store.objectsDir <+: path) : fs' path = fs path := by
  have htemp : ∀ name, path ≠ store.tempPath (compute t.data) name := by
    rintro name rfl
    exact hout ((List.prefix_append _ _).trans (List.prefix_append _ _))
  have hblob : path ≠ store.blobPath (compute t.data) := by
    rintro rfl
    exact hout ((List.prefix_append _ _).trans (List.prefix_append _ _))
  cases hm with
  | made _ _ _ hkept hother =>
      by_cases hpre : path <+: store.shardDir (compute t.data)
      · -- A directory that the one of the objects is in; it is there already.
        rw [shardDir, List.prefix_concat_iff, ← shardDir] at hpre
        rcases hpre with rfl | hpre
        · exact absurd (List.prefix_append _ _) hout
        · have hne : path ≠ store.objectsDir := by
            rintro rfl
            exact hout List.prefix_rfl
          have hdir := hs.tree path _ _ hpre hne hs.root
          rw [(hkept path).eq_some hdir, hdir]
      · exact hother path hpre
  | created _ _ _ | wrote _ _ => exact Map.insert_of_ne _ _ (htemp _)
  | persisted _ _ => exact (Map.insert_of_ne _ _ hblob).trans (Map.erase_of_ne _ (htemp _))
  | removed _ _ => exact Map.erase_of_ne _ (htemp _)
  | found _ _ | missed _ | complete _ | retried _ _ | gaveUp _ | abandoned _ _ | failed _ | waited _ =>
      rfl

theorem Moves.standing (ht : Standing store compute t fs)
    (hm : Moves store compute t fs t'.phase fs') (hdata : t'.data = t.data) :
    Standing store compute t' fs' := by
  unfold Standing
  rw [hdata]
  generalize t'.phase = phase' at hm
  cases hm with
  | found _ hblob => exact ⟨rfl, hblob⟩
  | missed _ => trivial
  | made _ _ hdir _ _ => exact hdir
  | created _ _ _ => exact ⟨[], false, rfl, Map.insert_self _ _ _⟩
  | wrote hphase htemp =>
      -- What was written and what is left still make up the data.
      simp only [Standing, hphase] at ht
      obtain ⟨written, executable, hdata, htemp'⟩ := ht
      rw [htemp] at htemp'
      cases htemp'
      exact ⟨_, _, by rw [List.append_assoc, hdata], Map.insert_self _ _ _⟩
  | complete hphase =>
      simp only [Standing, hphase, List.append_nil] at ht
      obtain ⟨written, executable, rfl, htemp⟩ := ht
      exact ⟨executable, htemp⟩
  | retried hphase _ =>
      simpa only [Standing, hphase] using ht
  | persisted _ _ =>
      refine ⟨rfl, ?_⟩
      rw [Map.insert_self]
      rfl
  | gaveUp hphase =>
      rcases hphase with ⟨rest, hphase⟩ | ⟨attempts, hphase⟩
      · simp only [Standing, hphase] at ht
        obtain ⟨written, executable, -, htemp⟩ := ht
        exact ⟨written, executable, htemp⟩
      · simp only [Standing, hphase] at ht
        obtain ⟨executable, htemp⟩ := ht
        exact ⟨t.data, executable, htemp⟩
  | removed _ _ => trivial
  | abandoned _ _ => trivial
  | failed _ => trivial
  | waited hphase =>
      unfold Standing at ht
      rwa [hphase] at ht

variable (store compute) in
/-- Two puts have no temporary file in common. -/
def Apart (t u : Put) : Prop :=
  ∀ q, tempPath? store compute t = some q → tempPath? store compute u ≠ some q

/-- What is known of one put survives a call of another. -/
theorem Moves.others {u : Put} (hm : Moves store compute t fs t'.phase fs')
    (hdata : t'.data = t.data) (hu : Standing store compute u fs)
    (hapart : Apart store compute t u) :
    Standing store compute u fs' ∧ Apart store compute t' u := by
  -- The temporary file of the other put is kept, since the name of a new one was free.
  have htemp : ∀ q node, tempPath? store compute u = some q → fs q = some node →
      tempPath? store compute t' ≠ some q ∧ fs' q = some node := by
    intro q node hq hnode
    have hown : tempPath? store compute t ≠ some q := fun h => hapart q h hq
    have hnew : tempPath? store compute t' ≠ some q := by
      intro h
      rcases hm.temp hdata h with h | ⟨h, -⟩
      · exact hown h
      · rw [h] at hnode
        cases hnode
    have hblob : q ≠ store.blobPath (compute t.data) := by
      obtain ⟨name, rfl⟩ := tempPath?_eq_some hq
      exact tempPath_ne_blobPath
    exact ⟨hnew, (hm.frame hdata hown hnew hblob).1.eq_some hnode⟩
  have hfree : tempPath? store compute u = none →
      Apart store compute t' u := by
    intro hnone q _ hq
    rw [hnone] at hq
    cases hq
  have hheld : ∀ q node, tempPath? store compute u = some q → fs q = some node →
      Apart store compute t' u := by
    intro q node hq hnode p hp hp'
    obtain rfl := Option.some.inj (hq.symm.trans hp')
    exact (htemp q node hq hnode).1 hp
  unfold Standing at hu ⊢
  cases hphase : u.phase with
  | lookup | shard =>
      exact ⟨trivial, hfree (by simp only [tempPath?, hphase])⟩
  | create =>
      simp only [hphase] at hu
      have hne := tempPath_ne (p := store.shardDir (compute u.data)) (Or.inr (Or.inl ⟨_, rfl⟩))
      refine ⟨?_, hfree (by simp only [tempPath?, hphase])⟩
      exact (hm.frame hdata (tempPath?_ne hne) (tempPath?_ne hne)
        (shardDir_ne length_blobPath)).1.eq_some hu
  | write name rest =>
      simp only [hphase] at hu
      obtain ⟨written, executable, hsplit, hfile⟩ := hu
      have hq : tempPath? store compute u = some (store.tempPath (compute u.data) name) := by
        simp only [tempPath?, hphase]
      exact ⟨⟨written, executable, hsplit, (htemp _ _ hq hfile).2⟩, hheld _ _ hq hfile⟩
  | persist name attempts =>
      simp only [hphase] at hu
      obtain ⟨executable, hfile⟩ := hu
      have hq : tempPath? store compute u = some (store.tempPath (compute u.data) name) := by
        simp only [tempPath?, hphase]
      exact ⟨⟨executable, (htemp _ _ hq hfile).2⟩, hheld _ _ hq hfile⟩
  | remove name error =>
      simp only [hphase] at hu
      obtain ⟨content, executable, hfile⟩ := hu
      have hq : tempPath? store compute u = some (store.tempPath (compute u.data) name) := by
        simp only [tempPath?, hphase]
      exact ⟨⟨content, executable, (htemp _ _ hq hfile).2⟩, hheld _ _ hq hfile⟩
  | ended result =>
      simp only [hphase] at hu
      refine ⟨?_, hfree (by simp only [tempPath?, hphase])⟩
      cases result with
      | error _ => trivial
      | ok digest => exact ⟨hu.1, hm.isSome_blob hdata hu.2⟩

end Moves

end FsCasStore

end Cas
end Aivcs
