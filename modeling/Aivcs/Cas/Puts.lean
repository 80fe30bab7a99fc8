import Aivcs.Cas.FsCasStore

/-!
# Cas.Puts — puts that run at the same time

Any number of puts take turns on one store that was made by `new` in an empty place.

* `get_after_puts` — whoever reads gets the whole data of a put or nothing, and what has been put can be read;
* `files_after_puts` — which files there are at any moment;
* `put_ends` — how a put ends, whatever the others do.
-/

namespace Aivcs
namespace Cas

open Lib

namespace FsCasStore

variable (store : FsCasStore)

/-! ## Puts that take turns -/

section Runs

variable (compute : Bytes → Digest)

/-- The disk and the puts after a schedule. -/
def run (puts : List Put) (fs : Fs) (schedule : List Nat) : Pool Put Fs :=
  after (Pool.step (turn store compute)) ⟨puts, fs⟩ schedule

/-- The disk is a store, each put stands where it is to, and each has a temporary file of its own. -/
def Running (p : Pool Put Fs) : Prop :=
  Pool.HoldsApart (Sound store compute) (fun _ => Standing store compute)
    (Apart store compute) p

variable {store compute} {root : List String} {fs fs₀ : Fs} {puts : List Put}

theorem Apart.symm {t u : Put} (h : Apart store compute t u) :
    Apart store compute u t :=
  fun q hu ht => h q ht hu

theorem running_after {p : Pool Put Fs} (h : Running store compute p) (schedule : List Nat) :
    Running store compute (after (Pool.step (turn store compute)) p schedule) := by
  refine Pool.holdsApart_after (fun _ _ => Apart.symm) ?_ ?_ h schedule
  · intro i t fs t' fs' hs ht hturn
    obtain ⟨hdata, -, -, hm⟩ := turn_call hs ht hturn
    exact ⟨hm.sound hs ht, hm.standing ht hdata⟩
  · intro i t fs t' fs' j u _ hs ht hturn hu hapart
    obtain ⟨hdata, -, -, hm⟩ := turn_call hs ht hturn
    exact hm.others hdata hu hapart

theorem running_step {p : Pool Put Fs} (h : Running store compute p) (i : Nat) :
    Running store compute (p.step (turn store compute) i) :=
  running_after h [i]

/-- What `new` makes of a directory that holds nothing below `objects`: an empty directory. -/
theorem new_ok (htree : fs.IsTree)
    (hempty : ∀ p, root ++ ["objects"] <+: p → p ≠ root ++ ["objects"] → fs p = none)
    (hnew : new root fs = .ok (store, fs₀)) :
    fs₀.IsTree ∧ fs₀ store.objectsDir = some .dir ∧
      ∀ p, store.objectsDir <+: p → p ≠ store.objectsDir → fs₀ p = none := by
  unfold new at hnew
  cases hmk : fs.createDirAll [] (root ++ ["objects"]) with
  | error e =>
      simp only [hmk] at hnew
      cases hnew
  | ok made =>
      simp only [hmk] at hnew
      cases hnew
      obtain ⟨htree', hdir, hkept⟩ := htree.createDirAll_ok hmk
      refine ⟨htree', hdir, ?_⟩
      intro p hp hne
      rw [(hkept p).2 (fun hpre => hne (hpre.eq_of_length_le hp.length_le)), hempty p hp hne]

theorem sound_new (htree : fs.IsTree)
    (hempty : ∀ p, root ++ ["objects"] <+: p → p ≠ root ++ ["objects"] → fs p = none)
    (hnew : new root fs = .ok (store, fs₀)) : Sound store compute fs₀ := by
  obtain ⟨htree', hdir, hnone⟩ := new_ok htree hempty hnew
  refine ⟨htree', hdir, ?_, ?_⟩
  · intro d
    exact Or.inl (hnone _ (List.prefix_append _ _) (Fs.child_ne _ _).symm)
  · intro d node hnode
    have hbelow : store.objectsDir <+: store.blobPath d :=
      (List.prefix_append _ _).trans (List.prefix_append _ _)
    rw [hnone _ hbelow (objectsDir_ne length_blobPath).symm] at hnode
    cases hnode

theorem running_start (hs : Sound store compute fs) (hstart : ∀ t ∈ puts, t.phase = .lookup) :
    Running store compute ⟨puts, fs⟩ := by
  have hphase : ∀ (i : Nat) (t : Put), puts[i]? = some t → t.phase = .lookup := fun i t ht =>
    hstart t (List.mem_of_getElem? ht)
  refine ⟨⟨hs, ?_⟩, ?_⟩
  · intro i t ht
    simp only [Standing, hphase i t ht]
  · intro i j t u _ ht _ q hq
    simp only [tempPath?, hphase i t ht] at hq
    cases hq

/-! ### Two puts of the same data -/

def helloWorld : Bytes :=
  [104, 101, 108, 108, 111, 32, 119, 111, 114, 108, 100]

/-- SHA-256 of the data of the example; other data get a digest of their own length. -/
def sha256 (data : Bytes) : Digest :=
  if data = helloWorld then
    ⟨[185, 77, 39, 185, 147, 77, 62, 8, 165, 46, 82, 215, 218, 125, 171, 250, 196, 132, 239, 227, 122, 83,
      128, 238, 144, 136, 247, 172, 226, 239, 205, 233], rfl⟩
  else
    ⟨List.replicate 31 0 ++ [UInt8.ofNat data.length], rfl⟩

/-- A put whose writes are short and whose first rename is refused, beside one that meets nothing. -/
def twoPuts : List Put :=
  [.start helloWorld [.whole, .whole, .whole, .short 4] [⟨"aB3xY9"⟩] [.permissionDenied] true,
    .start helloWorld [] [⟨"Zq81Lm"⟩] [] true]

theorem twoPuts_start : ∀ t ∈ twoPuts, t.phase = .lookup := by
  decide

/-- Where the puts stand after a schedule, in a store made in an empty place. -/
def phasesAfter (puts : List Put) (schedule : List Nat) : Option (List Phase) :=
  (new ["cas"] Fs.emptyDir).toOption.map fun made =>
    (run made.1 sha256 puts made.2 schedule).tasks.map (·.phase)

theorem phase_of_phasesAfter {puts : List Put} {schedule : List Nat} {phases : List Phase}
    (hphases : phasesAfter puts schedule = some phases)
    (hnew : new ["cas"] Fs.emptyDir = .ok (store, fs₀)) {i : Nat} {t : Put}
    (ht : (run store sha256 puts fs₀ schedule).tasks[i]? = some t) : phases[i]? = some t.phase := by
  rw [phasesAfter, hnew] at hphases
  cases hphases
  rw [List.getElem?_map, ht, Option.map_some]

theorem exists_new_emptyDir : ∃ store fs₀, new ["cas"] Fs.emptyDir = .ok (store, fs₀) := by
  have htree := Fs.isTree_of_represents represents_emptyDir
  have hfree : ∀ p, p <+: ["cas", "objects"] → Fs.emptyDir p = none ∨ Fs.emptyDir p = some .dir := by
    intro p _
    by_cases hp : p = []
    · subst hp
      exact Or.inr (Map.insert_self _ _ _)
    · exact Or.inl (Map.insert_of_ne _ _ hp)
  obtain ⟨made, hmk, -⟩ := htree.createDirAll hfree
  refine ⟨⟨["cas", "objects"]⟩, made, ?_⟩
  simp only [new, List.cons_append, List.nil_append, hmk]

theorem emptyDir_below : ∀ p, ["cas"] ++ ["objects"] <+: p → p ≠ ["cas"] ++ ["objects"] →
    Fs.emptyDir p = none := by
  intro p hp _
  refine Map.insert_of_ne _ _ ?_
  rintro rfl
  simp at hp

/-! ### What is read, and when -/

/-- The put at a place of the pool keeps its data and what its removal does. -/
theorem exists_put_after {p : Pool Put Fs} (h : Running store compute p) (schedule : List Nat)
    {i : Nat} {t : Put} (ht : p.tasks[i]? = some t) :
    ∃ t', (after (Pool.step (turn store compute)) p schedule).tasks[i]? = some t' ∧
      t'.data = t.data ∧ t'.removal = t.removal := by
  induction schedule generalizing p t with
  | nil =>
      exact ⟨t, ht, rfl, rfl⟩
  | cons j schedule ih =>
      rw [after_cons]
      have hrun : Running store compute (p.step (turn store compute) j) :=
        running_step h j
      rcases Pool.step_cases (turn store compute) p j with ⟨_, hsame⟩ | ⟨u, u', fs', hu, hturn, hstep⟩
      · rw [hsame]
        exact ih h ht
      · -- It is this put's turn, or another one's.
        by_cases hj : j = i
        · subst hj
          obtain rfl : t = u := Option.some.inj (ht.symm.trans hu)
          obtain ⟨hdata, hremoval, -, -⟩ := turn_call h.shared (h.task j t ht) hturn
          have hget : (p.step (turn store compute) j).tasks[j]? = some u' := by
            rw [hstep, List.getElem?_set_self (List.getElem?_eq_some_iff.1 ht).1]
          obtain ⟨t', ht', hdata', hremoval'⟩ := ih hrun hget
          exact ⟨t', ht', hdata'.trans hdata, hremoval'.trans hremoval⟩
        · have hget : (p.step (turn store compute) j).tasks[i]? = some t := by
            rw [hstep, List.getElem?_set_ne hj, ht]
          exact ih hrun hget

/-- A blob that is there stays there. -/
theorem isSome_later {p : Pool Put Fs} (h : Running store compute p) {d : Digest}
    (hd : (p.shared (store.blobPath d)).isSome = true) (schedule : List Nat) :
    ((after (Pool.step (turn store compute)) p schedule).shared (store.blobPath d)).isSome = true := by
  induction schedule generalizing p with
  | nil =>
      exact hd
  | cons j schedule ih =>
      rw [after_cons]
      refine ih (running_step h j) ?_
      rcases Pool.step_cases (turn store compute) p j with ⟨_, hsame⟩ | ⟨u, u', fs', hu, hturn, hstep⟩
      · rwa [hsame]
      · obtain ⟨hdata, -, -, hm⟩ := turn_call h.shared (h.task j u hu) hturn
        rw [hstep]
        exact hm.isSome_blob hdata hd

variable (store) in
/-- Every blob holds the data of one of the puts. -/
structure Filled (puts : List Put) (p : Pool Put Fs) : Prop where
  data : p.tasks.map (·.data) = puts.map (·.data)
  blob : ∀ d content executable, p.shared (store.blobPath d) = some (.file content executable) →
    content ∈ puts.map (·.data)

theorem Filled.step {p : Pool Put Fs} (h : Filled store puts p) (hrun : Running store compute p) (i : Nat) :
    Filled store puts (p.step (turn store compute) i) := by
  rcases Pool.step_cases (turn store compute) p i with ⟨_, hsame⟩ | ⟨t, t', fs', ht, hturn, hstep⟩
  · rwa [hsame]
  · obtain ⟨hdata, -, -, hm⟩ := turn_call hrun.shared (hrun.task i t ht) hturn
    have hput : (p.tasks.map (·.data))[i]? = some t.data := by rw [List.getElem?_map, ht, Option.map_some]
    obtain ⟨hi, hget⟩ := List.getElem?_eq_some_iff.1 hput
    rw [hstep]
    refine ⟨?_, ?_⟩
    · rw [List.map_set, hdata, ← hget, List.set_getElem_self hi, h.data]
    · intro d content executable hfile
      rcases hm.blob hfile with rfl | hold
      · exact h.data ▸ List.mem_of_getElem? hput
      · exact h.blob d content executable hold

theorem Filled.after {p : Pool Put Fs} (h : Filled store puts p) (hrun : Running store compute p)
    (schedule : List Nat) : Filled store puts (after (Pool.step (turn store compute)) p schedule) := by
  induction schedule generalizing p with
  | nil =>
      exact h
  | cons i schedule ih =>
      exact ih (h.step hrun i) (running_step hrun i)

/-- A reader gets nothing or the data of a put. -/
theorem Filled.get_cases {p : Pool Put Fs} (h : Filled store puts p) (hs : Sound store compute p.shared)
    (d : Digest) :
    (p.shared (store.blobPath d) = none ∧ store.get p.shared d = .error (.notFound d)) ∨
    ∃ u ∈ puts, store.get p.shared d = .ok u.data ∧ compute u.data = d := by
  rcases hs.get_cases d with hnone | ⟨content, executable, hfile, hcompute, hget⟩
  · exact Or.inl hnone
  · obtain ⟨u, hu, rfl⟩ := List.mem_map.1 (h.blob d content executable hfile)
    exact Or.inr ⟨u, hu, hget, hcompute⟩

theorem filled_start (htree : fs.IsTree)
    (hempty : ∀ p, root ++ ["objects"] <+: p → p ≠ root ++ ["objects"] → fs p = none)
    (hnew : new root fs = .ok (store, fs₀)) : Filled store puts ⟨puts, fs₀⟩ := by
  obtain ⟨-, -, hnone⟩ := new_ok htree hempty hnew
  refine ⟨rfl, ?_⟩
  intro d content executable hfile
  have hbelow : store.objectsDir <+: store.blobPath d :=
    (List.prefix_append _ _).trans (List.prefix_append _ _)
  change fs₀ (store.blobPath d) = _ at hfile
  rw [hnone _ hbelow (objectsDir_ne length_blobPath).symm] at hfile
  cases hfile

/-- Puts that take turns in any order, each of which may stop for good anywhere: whoever reads a blob gets
nothing or the whole data of a put with the digest asked for, and what a put has returned can be read from
then on, as its own data where no other put has data of that digest. -/
theorem get_after_puts (htree : fs.IsTree)
    (hempty : ∀ p, root ++ ["objects"] <+: p → p ≠ root ++ ["objects"] → fs p = none)
    (hnew : new root fs = .ok (store, fs₀)) (hstart : ∀ t ∈ puts, t.phase = .lookup)
    (schedule : List Nat) :
    (∀ d, store.get (run store compute puts fs₀ schedule).shared d = .error (.notFound d) ∨
      ∃ u ∈ puts, store.get (run store compute puts fs₀ schedule).shared d = .ok u.data ∧
        compute u.data = d) ∧
    ∀ (i : Nat) (t : Put), puts[i]? = some t →
      ∃ t' : Put, (run store compute puts fs₀ schedule).tasks[i]? = some t' ∧
      ∀ d, t'.phase = .ended (.ok d) → d = compute t.data ∧
        ∀ later, (∃ u ∈ puts, compute u.data = d ∧
            store.get (run store compute puts fs₀ (schedule ++ later)).shared d = .ok u.data) ∧
          ((∀ u ∈ puts, compute u.data = d → u.data = t.data) →
            store.get (run store compute puts fs₀ (schedule ++ later)).shared d = .ok t.data) := by
  have hrun : Running store compute ⟨puts, fs₀⟩ := running_start (sound_new htree hempty hnew) hstart
  have hfilled : ∀ schedule, Filled store puts (run store compute puts fs₀ schedule) := fun schedule =>
    (filled_start htree hempty hnew).after hrun schedule
  have h := running_after hrun schedule
  refine ⟨?_, ?_⟩
  · intro d
    exact ((hfilled schedule).get_cases h.shared d).imp_left And.right
  · intro i t ht
    obtain ⟨t', ht', hdata, -⟩ := exists_put_after hrun schedule ht
    refine ⟨t', ht', ?_⟩
    intro d hd
    have hstanding : Standing store compute t' _ := h.task i t' ht'
    simp only [Standing, hd] at hstanding
    refine ⟨hdata ▸ hstanding.1, ?_⟩
    intro later
    -- A blob that is there stays, and what is in a blob came from a put.
    have hsome : ((run store compute puts fs₀ (schedule ++ later)).shared
        (store.blobPath d)).isSome = true := by
      rw [run, after_append]
      exact isSome_later h hstanding.2 later
    have hread : ∃ u ∈ puts, store.get (run store compute puts fs₀ (schedule ++ later)).shared d =
        .ok u.data ∧ compute u.data = d := by
      rcases (hfilled (schedule ++ later)).get_cases (running_after hrun _).shared d with ⟨hnone, -⟩ | hread
      · rw [hnone] at hsome
        cases hsome
      · exact hread
    obtain ⟨u, hu, hget, hcompute⟩ := hread
    exact ⟨⟨u, hu, hcompute, hget⟩, fun hsame => hsame u hu hcompute ▸ hget⟩

theorem get_after_twoPuts : ∃ store fs₀, new ["cas"] Fs.emptyDir = .ok (store, fs₀) ∧
    ∃ t, (run store sha256 twoPuts fs₀ (List.replicate 12 1 ++ List.replicate 20 0)).tasks[0]? = some t ∧
      t.phase = .ended (.ok (sha256 helloWorld)) ∧
      ∀ later, store.get (run store sha256 twoPuts fs₀
        (List.replicate 12 1 ++ List.replicate 20 0 ++ later)).shared (sha256 helloWorld) =
          .ok helloWorld := by
  obtain ⟨store, fs₀, hnew⟩ := exists_new_emptyDir
  have hput : twoPuts[0]? = some (.start helloWorld [.whole, .whole, .whole, .short 4]
    [⟨"aB3xY9"⟩] [.permissionDenied] true) := rfl
  have hphases : phasesAfter twoPuts (List.replicate 12 1 ++ List.replicate 20 0) =
      some [.ended (.ok (sha256 helloWorld)), .ended (.ok (sha256 helloWorld))] := by
    decide +kernel
  obtain ⟨t, ht, hread⟩ := (get_after_puts (Fs.isTree_of_represents represents_emptyDir)
    emptyDir_below hnew twoPuts_start (List.replicate 12 1 ++ List.replicate 20 0)).2 0 _ hput
  have hphase : t.phase = .ended (.ok (sha256 helloWorld)) :=
    (Option.some.inj (phase_of_phasesAfter hphases hnew ht)).symm
  refine ⟨store, fs₀, hnew, t, ht, hphase, ?_⟩
  intro later
  refine ((hread _ hphase).2 later).2 ?_
  intro u hu _
  simp only [twoPuts, List.mem_cons, List.not_mem_nil, or_false] at hu
  rcases hu with rfl | rfl <;> rfl
/-! ## The files there are -/

variable (store compute) in
/-- The files of the store: the blobs of the puts that have returned, and the temporary files of the puts
that are under way. -/
def IsFileOf (tasks : List Put) (path : List String) : Prop :=
  (∃ t ∈ tasks, t.phase = .ended (.ok (compute t.data)) ∧ path = store.blobPath (compute t.data)) ∨
    ∃ t ∈ tasks, tempPath? store compute t = some path

variable (store compute) in
/-- The temporary file of a put that is about to end without it being removed. -/
def Leaves (p : Pool Put Fs) (i : Nat) (path : List String) : Prop :=
  ∃ t, p.tasks[i]? = some t ∧ Abandons t ∧ tempPath? store compute t = some path

variable (store compute) in
/-- The temporary files that have been left, over a schedule. -/
def LeftOver (p : Pool Put Fs) (schedule : List Nat) (path : List String) : Prop :=
  ∃ before i later, schedule = before ++ i :: later ∧
    Leaves store compute (after (Pool.step (turn store compute)) p before) i path

theorem leftOver_concat {p : Pool Put Fs} {schedule : List Nat} {i : Nat} {path : List String} :
    LeftOver store compute p (schedule ++ [i]) path ↔
      LeftOver store compute p schedule path ∨
        Leaves store compute (after (Pool.step (turn store compute)) p schedule) i path := by
  constructor
  · rintro ⟨before, j, later, heq, hleaves⟩
    rcases List.eq_nil_or_concat later with rfl | ⟨later, k, rfl⟩
    · obtain ⟨rfl, hj⟩ := List.append_inj' heq rfl
      cases hj
      exact Or.inr hleaves
    · rw [List.concat_eq_append, ← List.cons_append, ← List.append_assoc] at heq
      exact Or.inl ⟨before, j, later, (List.append_inj' heq rfl).1, hleaves⟩
  · rintro (⟨before, j, later, rfl, hleaves⟩ | hleaves)
    · exact ⟨before, j, later ++ [i], by rw [List.append_assoc, List.cons_append], hleaves⟩
    · exact ⟨schedule, i, [], rfl, hleaves⟩

variable (store compute) in
/-- Nothing is in the directory of the objects but directories, the files of the store and what is left. -/
structure Accounted (left : List String → Prop) (p : Pool Put Fs) : Prop where
  file : ∀ path content executable, store.objectsDir <+: path →
    p.shared path = some (.file content executable) → IsFileOf store compute p.tasks path ∨ left path
  left : ∀ path, left path → (∃ d name, path = store.tempPath d name) ∧
    (∃ content executable, p.shared path = some (.file content executable)) ∧
    ∀ t ∈ p.tasks, tempPath? store compute t ≠ some path

theorem mem_set_of_ne {tasks : List Put} {i : Nat} {t t' u : Put} (ht : tasks[i]? = some t)
    (hu : u ∈ tasks) (hne : u ≠ t) : u ∈ tasks.set i t' := by
  obtain ⟨j, hj⟩ := List.mem_iff_getElem?.1 hu
  have hij : i ≠ j := by
    rintro rfl
    rw [ht] at hj
    exact hne (Option.some.inj hj).symm
  exact List.mem_iff_getElem?.2 ⟨j, by rw [List.getElem?_set_ne hij, hj]⟩

theorem mem_set_self {tasks : List Put} {i : Nat} {t t' : Put} (ht : tasks[i]? = some t) :
    t' ∈ tasks.set i t' :=
  List.mem_iff_getElem?.2 ⟨i, List.getElem?_set_self (List.getElem?_eq_some_iff.1 ht).1⟩

/-- Whoever has a temporary file, the file is there. -/
theorem Standing.exists_file {t : Put} (ht : Standing store compute t fs) {path : List String}
    (hpath : tempPath? store compute t = some path) :
    ∃ content executable, fs path = some (.file content executable) := by
  unfold tempPath? at hpath
  unfold Standing at ht
  split at hpath
  · rename_i hphase
    simp only [hphase] at ht
    cases hpath
    obtain ⟨written, executable, -, hfile⟩ := ht
    exact ⟨written, executable, hfile⟩
  · rename_i hphase
    simp only [hphase] at ht
    cases hpath
    obtain ⟨executable, hfile⟩ := ht
    exact ⟨t.data, executable, hfile⟩
  · rename_i hphase
    simp only [hphase] at ht
    cases hpath
    exact ht
  · cases hpath

def HasEnded (t : Put) : Prop :=
  ∃ result, t.phase = .ended result

theorem turn_eq_none_iff {i : Nat} {t : Put} {fs : Fs} :
    turn store compute i t fs = none ↔ HasEnded t := by
  unfold turn HasEnded
  cases hphase : t.phase with
  | ended result =>
      simp
  | write name rest =>
      cases rest with
      | nil =>
          simp
      | cons byte rest =>
          simp only [reduceCtorEq, exists_false, iff_false]
          split
          all_goals first | simp | (split <;> simp)
  | lookup | shard | create | persist _ _ | remove _ _ =>
      simp only [reduceCtorEq, exists_false, iff_false]
      split
      all_goals first | simp | (split <;> first | simp | (split <;> simp))

/-- A put that cannot remove its temporary file ends and leaves the disk as it is. -/
theorem turn_abandons {t t' : Put} {fs fs' : Fs} {i : Nat} (hs : Sound store compute fs)
    (ht : Standing store compute t fs) (habandons : Abandons t)
    (hturn : turn store compute i t fs = some (t', fs')) :
    fs' = fs ∧ tempPath? store compute t' = none := by
  obtain ⟨hremoval, name, error, hphase⟩ := habandons
  simp only [Standing, hphase] at ht
  obtain ⟨content, executable, htemp⟩ := ht
  simp only [turn, hphase, hremoval, hs.tree.removeFile_eq htemp] at hturn
  cases hturn
  exact ⟨rfl, rfl⟩

/-- A temporary file without a put is nobody's after a call either, and stays as it is. -/
theorem Moves.left {t t' : Put} {fs fs' : Fs} (hm : Moves store compute t fs t'.phase fs')
    (hdata : t'.data = t.data) {d : Digest} {name : TempName} {content : Bytes} {executable : Bool}
    (hfile : fs (store.tempPath d name) = some (.file content executable))
    (hown : tempPath? store compute t ≠ some (store.tempPath d name)) :
    fs' (store.tempPath d name) = some (.file content executable) ∧
      tempPath? store compute t' ≠ some (store.tempPath d name) := by
  have hnew : tempPath? store compute t' ≠ some (store.tempPath d name) := by
    intro htemp
    rcases hm.temp hdata htemp with hold | ⟨hfree, -⟩
    · exact hown hold
    · rw [hfile] at hfree
      cases hfree
  exact ⟨(hm.frame hdata hown hnew tempPath_ne_blobPath).1.eq_some hfile, hnew⟩

/-- A put that has still to try and remove its file can take a turn. -/
theorem canStep_of_leaves {p : Pool Put Fs} {i : Nat} {path : List String} (h : Leaves store compute p i path) :
    p.CanStep (turn store compute) i := by
  obtain ⟨t, ht, ⟨-, name, error, hphase⟩, -⟩ := h
  have hcan : turn store compute i t p.shared ≠ none := by
    intro hnone
    obtain ⟨result, hended⟩ := turn_eq_none_iff.1 hnone
    rw [hphase] at hended
    cases hended
  obtain ⟨r, hr⟩ := Option.ne_none_iff_exists'.1 hcan
  exact ⟨t, r, ht, hr⟩

/-- The file of a put is no one's any more once the put has none. -/
theorem Running.unowned {p : Pool Put Fs} (h : Running store compute p) {i : Nat} {t t' : Put}
    (ht : p.tasks[i]? = some t) {path : List String} (htemp : tempPath? store compute t = some path)
    (hnone : tempPath? store compute t' = none) :
    ∀ u ∈ p.tasks.set i t', tempPath? store compute u ≠ some path := by
  intro u hu
  obtain ⟨j, hj⟩ := List.mem_iff_getElem?.1 hu
  by_cases hij : i = j
  · subst hij
    rw [List.getElem?_set_self (List.getElem?_eq_some_iff.1 ht).1] at hj
    cases hj
    rw [hnone]
    simp
  · rw [List.getElem?_set_ne hij] at hj
    exact h.apart i j t u hij ht hj path htemp

/-- A turn accounts for the files it makes, and adds what its put leaves to what is left. -/
theorem accounted_step {left left' : List String → Prop} {p : Pool Put Fs} (h : Running store compute p)
    (hacc : Accounted store compute left p) {i : Nat}
    (hleft : ∀ path, left' path ↔ left path ∨ Leaves store compute p i path) :
    Accounted store compute left' (p.step (turn store compute) i) := by
  rcases Pool.step_cases (turn store compute) p i with ⟨hno, hsame⟩ | ⟨t, t', fs', ht, hturn, hstep⟩
  · -- Nothing happens, and nothing is left either.
    rw [hsame]
    constructor
    · intro path content executable hbelow hfile
      exact (hacc.file path content executable hbelow hfile).imp_right fun h => (hleft path).2 (Or.inl h)
    · intro path hpath
      rcases (hleft path).1 hpath with hold | hleaves
      · exact hacc.left path hold
      · exact absurd (canStep_of_leaves hleaves) hno
  · obtain ⟨hdata, -, -, hm⟩ := turn_call h.shared (h.task i t ht) hturn
    have hown : t' ∈ p.tasks.set i t' := mem_set_self ht
    rw [hstep]
    constructor
    · intro path content executable hbelow hfile
      rcases hm.file hdata hfile with
        htemp | ⟨hblob, hphase⟩ | ⟨habandons, htemp⟩ | ⟨hnot, content', executable', hold⟩
      · exact Or.inl (Or.inr ⟨t', hown, htemp⟩)
      · exact Or.inl (Or.inl ⟨t', hown, by rw [hdata, hphase], by rw [hdata, hblob]⟩)
      · exact Or.inr ((hleft path).2 (Or.inr ⟨t, ht, habandons, htemp⟩))
      · -- The file was there and is not the put's own, so it is accounted for by another put or left.
        rcases hacc.file path content' executable' hbelow hold with
          (⟨u, hu, hphase, hpath⟩ | ⟨u, hu, htemp⟩) | hold
        · refine Or.inl (Or.inl ⟨u, mem_set_of_ne ht hu ?_, hphase, hpath⟩)
          rintro rfl
          simp only [turn, hphase] at hturn
          cases hturn
        · refine Or.inl (Or.inr ⟨u, mem_set_of_ne ht hu ?_, htemp⟩)
          rintro rfl
          exact hnot htemp
        · exact Or.inr ((hleft path).2 (Or.inl hold))
    · intro path hpath
      rcases (hleft path).1 hpath with hold | ⟨u, hu, habandons, htemp⟩
      · -- What is left stays, since no name that is drawn is that of a file.
        obtain ⟨⟨d, name, rfl⟩, ⟨content, executable, hfile⟩, hnobody⟩ := hacc.left path hold
        obtain ⟨hfile', hnew⟩ := hm.left hdata hfile (hnobody t (List.mem_of_getElem? ht))
        refine ⟨⟨d, name, rfl⟩, ⟨content, executable, hfile'⟩, ?_⟩
        intro u hu
        rcases List.mem_or_eq_of_mem_set hu with hu | rfl
        · exact hnobody u hu
        · exact hnew
      · obtain rfl : t = u := Option.some.inj (ht.symm.trans hu)
        obtain ⟨rfl, hnone⟩ := turn_abandons h.shared (h.task i t ht) habandons hturn
        obtain ⟨name, hname⟩ := tempPath?_eq_some htemp
        exact ⟨⟨_, name, hname⟩, (h.task i t ht).exists_file htemp, h.unowned ht htemp hnone⟩

theorem accounted_after {p : Pool Put Fs} (h : Running store compute p)
    (hacc : Accounted store compute (fun _ => False) p) (schedule : List Nat) :
    Accounted store compute (LeftOver store compute p schedule)
      (after (Pool.step (turn store compute)) p schedule) := by
  induction schedule using List.reverseRecOn with
  | nil =>
      refine ⟨fun path content executable hbelow hfile =>
        Or.inl ((hacc.file path content executable hbelow hfile).resolve_right id), ?_⟩
      rintro path ⟨before, i, later, heq, -⟩
      simp at heq
  | append_singleton schedule i ih =>
      rw [after_append]
      exact accounted_step (running_after h schedule) ih (fun _ => leftOver_concat)

/-- Outside the directory of the objects no call changes anything. -/
theorem outside_after {p : Pool Put Fs} (h : Running store compute p) (schedule : List Nat)
    {path : List String} (hout : ¬ store.objectsDir <+: path) :
    (after (Pool.step (turn store compute)) p schedule).shared path = p.shared path := by
  induction schedule generalizing p with
  | nil =>
      rfl
  | cons i schedule ih =>
      refine (ih (running_step h i)).trans ?_
      rcases Pool.step_cases (turn store compute) p i with ⟨_, hsame⟩ | ⟨t, t', fs', ht, hturn, hstep⟩
      · rw [hsame]
      · obtain ⟨hdata, -, -, hm⟩ := turn_call h.shared (h.task i t ht) hturn
        rw [hstep]
        exact hm.outside h.shared hout

theorem isFileOf_iff {left : List String → Prop} {p : Pool Put Fs} (h : Running store compute p)
    (hacc : Accounted store compute left p) {path : List String}
    (hbelow : store.objectsDir <+: path) :
    (∃ content executable, p.shared path = some (.file content executable)) ↔
      IsFileOf store compute p.tasks path ∨ left path := by
  constructor
  · rintro ⟨content, executable, hfile⟩
    exact hacc.file path content executable hbelow hfile
  · rintro ((⟨t, ht, hphase, rfl⟩ | ⟨t, ht, htemp⟩) | hleft)
    · obtain ⟨i, hi⟩ := List.mem_iff_getElem?.1 ht
      have hstanding : Standing store compute t p.shared := h.task i t hi
      simp only [Standing, hphase, true_and] at hstanding
      obtain ⟨node, hnode⟩ := Option.isSome_iff_exists.1 hstanding
      obtain ⟨content, executable, rfl, -⟩ := h.shared.blob _ node hnode
      exact ⟨content, executable, hnode⟩
    · obtain ⟨i, hi⟩ := List.mem_iff_getElem?.1 ht
      exact (h.task i t hi).exists_file htemp
    · exact (hacc.left path hleft).2.1

/-- A blob is there exactly when some put has returned its digest. -/
theorem exists?_iff {left : List String → Prop} {p : Pool Put Fs} (h : Running store compute p)
    (hacc : Accounted store compute left p) (d : Digest) :
    store.exists? p.shared d = true ↔ ∃ t ∈ p.tasks, t.phase = .ended (.ok d) := by
  rw [exists?, h.shared.tree.exists?_iff]
  constructor
  · intro hd
    obtain ⟨node, hnode⟩ := Option.isSome_iff_exists.1 hd
    obtain ⟨content, executable, rfl, -⟩ := h.shared.blob _ node hnode
    have hbelow : store.objectsDir <+: store.blobPath d :=
      (List.prefix_append _ _).trans (List.prefix_append _ _)
    rcases hacc.file _ content executable hbelow hnode with
      (⟨t, ht, hphase, hpath⟩ | ⟨t, -, htemp⟩) | hleft
    · exact ⟨t, ht, blobPath_injective hpath ▸ hphase⟩
    · obtain ⟨name, hpath⟩ := tempPath?_eq_some htemp
      exact absurd hpath.symm tempPath_ne_blobPath
    · obtain ⟨⟨d', name, hpath⟩, -⟩ := hacc.left _ hleft
      exact absurd hpath.symm tempPath_ne_blobPath
  · rintro ⟨t, ht, hphase⟩
    obtain ⟨i, hi⟩ := List.mem_iff_getElem?.1 ht
    have hstanding : Standing store compute t p.shared := h.task i t hi
    simp only [Standing, hphase] at hstanding
    exact hstanding.2

/-- Puts into a store that was empty, in any order: at each moment the files of the store are the blobs of
the puts that have returned, each once, the temporary files of the puts under way and those that a put has
failed to remove; nothing outside the store changes. -/
theorem files_after_puts (htree : fs.IsTree)
    (hempty : ∀ p, root ++ ["objects"] <+: p → p ≠ root ++ ["objects"] → fs p = none)
    (hnew : new root fs = .ok (store, fs₀)) (hstart : ∀ t ∈ puts, t.phase = .lookup)
    (schedule : List Nat) :
    (∀ path, store.objectsDir <+: path →
      ((∃ content executable,
          (run store compute puts fs₀ schedule).shared path = some (.file content executable)) ↔
        IsFileOf store compute (run store compute puts fs₀ schedule).tasks path ∨
          LeftOver store compute ⟨puts, fs₀⟩ schedule path)) ∧
    (∀ d, store.exists? (run store compute puts fs₀ schedule).shared d = true ↔
      ∃ t ∈ (run store compute puts fs₀ schedule).tasks, t.phase = .ended (.ok d)) ∧
    ∀ path, ¬ store.objectsDir <+: path →
      (run store compute puts fs₀ schedule).shared path = fs₀ path := by
  have hrun : Running store compute ⟨puts, fs₀⟩ :=
    running_start (sound_new htree hempty hnew) hstart
  obtain ⟨-, hdir, hnone⟩ := new_ok htree hempty hnew
  -- At the start there is no file, and nothing is left.
  have hacc : Accounted store compute (fun _ => False) ⟨puts, fs₀⟩ := by
    refine ⟨?_, fun _ h => h.elim⟩
    intro path content executable hbelow hfile
    change fs₀ path = _ at hfile
    by_cases hpath : path = store.objectsDir
    · rw [hpath, hdir] at hfile
      cases hfile
    · rw [hnone path hbelow hpath] at hfile
      cases hfile
  have hacc' := accounted_after hrun hacc schedule
  have hrun' := running_after hrun schedule
  exact ⟨fun path hbelow => isFileOf_iff hrun' hacc' hbelow, exists?_iff hrun' hacc',
    fun path hout => outside_after hrun schedule hout⟩

/-- The two puts and a third one, whose write fails and whose temporary file cannot be removed. -/
def threePuts : List Put :=
  twoPuts ++ [.start helloWorld [.whole, .whole, .whole, .error .permissionDenied] [⟨"Qq7RtY"⟩] [] false]

theorem files_after_threePuts : ∃ store fs₀, new ["cas"] Fs.emptyDir = .ok (store, fs₀) ∧
    ∃ content executable, (run store sha256 threePuts fs₀
      (List.replicate 4 2 ++ 2 :: List.replicate 12 1)).shared
        (store.tempPath (sha256 helloWorld) ⟨"Qq7RtY"⟩) = some (.file content executable) := by
  obtain ⟨store, fs₀, hnew⟩ := exists_new_emptyDir
  -- After four turns the third put is about to end, and it cannot remove its file.
  have hphases : phasesAfter threePuts (List.replicate 4 2) =
      some [.lookup, .lookup, .remove ⟨"Qq7RtY"⟩ (.io .permissionDenied)] := by
    decide +kernel
  have hthird : threePuts[2]? = some (.start helloWorld
    [.whole, .whole, .whole, .error .permissionDenied] [⟨"Qq7RtY"⟩] [] false) := rfl
  have htree := Fs.isTree_of_represents represents_emptyDir
  have hstart : ∀ t ∈ threePuts, t.phase = .lookup := by decide
  have hsound : Sound store sha256 fs₀ := sound_new htree emptyDir_below hnew
  obtain ⟨t, ht, hdata, hremoval⟩ :=
    exists_put_after (running_start hsound hstart) (List.replicate 4 2) hthird
  have hphase : t.phase = .remove ⟨"Qq7RtY"⟩ (.io .permissionDenied) :=
    (Option.some.inj (phase_of_phasesAfter hphases hnew ht)).symm
  have htemp : tempPath? store sha256 t = some (store.tempPath (sha256 helloWorld) ⟨"Qq7RtY"⟩) := by
    rw [tempPath?, hphase, hdata]
    rfl
  have hbelow : store.objectsDir <+: store.tempPath (sha256 helloWorld) ⟨"Qq7RtY"⟩ :=
    (List.prefix_append _ _).trans (List.prefix_append _ _)
  exact ⟨store, fs₀, hnew, ((files_after_puts htree emptyDir_below hnew hstart
    (List.replicate 4 2 ++ 2 :: List.replicate 12 1)).1 _ hbelow).2
      (Or.inr ⟨_, 2, _, rfl, t, ht, ⟨hremoval, _, _, hphase⟩, htemp⟩)⟩

/-! ## How a put ends -/

/-- The calls a put has left at most. -/
def callsLeft (t : Put) : Nat :=
  match t.phase with
  | .lookup => t.calls.length + t.names.length + t.data.length + 12
  | .shard => t.calls.length + t.names.length + t.data.length + 11
  | .create => t.calls.length + t.names.length + t.data.length + 10
  | .write _ rest => t.calls.length + rest.length + 8
  | .persist _ attempts => (3 - attempts) + 3
  | .remove _ _ => 1
  | .ended _ => 0

/-- An answer other than the default one has been given. -/
theorem tail_lt_of_answer {t : Put} (h : t.answer ≠ .whole) :
    t.calls.tail.length < t.calls.length := by
  unfold Put.answer at h
  cases hcalls : t.calls with
  | nil =>
      rw [hcalls] at h
      exact absurd rfl h
  | cons a calls =>
      simp

/-- A write that takes nothing is the one whose answer says so. -/
theorem taken_pos (byte : UInt8) (rest : Bytes) {answer : Answer} (h : answer ≠ .short 0) :
    0 < (taken (byte :: rest) answer).length := by
  cases answer with
  | short n =>
      cases n with
      | zero => exact absurd rfl h
      | succ n => simp [taken]
  | whole => simp [taken]
  | error kind => simp [taken]

theorem callsLeft_notPersisted (t : Put) (name : TempName) (attempts : Nat) (kind : ErrorKind) :
    callsLeft { t with phase := notPersisted name attempts kind } < (3 - attempts) + 3 := by
  unfold notPersisted
  split
  · split
    · simp only [callsLeft]
      omega
    · simp only [callsLeft]
      omega
  · simp only [callsLeft]
    omega

theorem callsLeft_turn {i : Nat} {t t' : Put} {fs fs' : Fs}
    (hturn : turn store compute i t fs = some (t', fs')) : callsLeft t' < callsLeft t := by
  unfold turn at hturn
  -- Every turn takes an answer, a name or a byte, or goes on to a later phase.
  have htail : t.calls.tail.length ≤ t.calls.length := by simp
  cases hphase : t.phase with
  | lookup =>
      simp only [hphase] at hturn
      split at hturn
      · cases hturn
        simp only [callsLeft, hphase, Put.goTo]
        omega
      · cases hturn
        by_cases hfound : store.exists? fs (compute t.data) = true
        · simp only [callsLeft, hphase, Put.goTo, hfound, if_true]
          omega
        · simp only [callsLeft, hphase, Put.goTo, hfound, Bool.false_eq_true, if_false]
          omega
  | shard =>
      simp only [hphase] at hturn
      split at hturn
      · cases hturn
        simp only [callsLeft, hphase, Put.goTo]
        omega
      · split at hturn
        · cases hturn
          simp only [callsLeft, hphase, Put.goTo]
          omega
        · cases hturn
          simp only [callsLeft, hphase, Put.goTo]
          omega
  | create =>
      simp only [hphase] at hturn
      split at hturn
      · cases hturn
        simp only [callsLeft, hphase, Put.goTo]
        omega
      · split at hturn
        · cases hturn
          simp only [callsLeft, hphase, Put.goTo]
          omega
        · rename_i name names hnames
          split at hturn
          · cases hturn
            simp only [callsLeft, hphase, Put.goTo]
            omega
          · cases hturn
            simp only [callsLeft, hphase, Put.goTo, hnames, List.length_cons]
            omega
          · cases hturn
            simp only [callsLeft, hphase, Put.goTo]
            omega
  | write name rest =>
      cases rest with
      | nil =>
          simp only [hphase] at hturn
          cases hturn
          simp only [callsLeft, hphase, List.length_nil]
          omega
      | cons byte rest =>
          simp only [hphase] at hturn
          split at hturn
          · rename_i hanswer
            cases hturn
            have := tail_lt_of_answer (t := t) (by rw [hanswer]; simp)
            simp only [callsLeft, hphase, Put.goTo]
            omega
          · cases hturn
            simp only [callsLeft, hphase, Put.goTo]
            omega
          · cases hturn
            simp only [callsLeft, hphase, Put.goTo]
            omega
          · rename_i hshort
            split at hturn
            · cases hturn
              simp only [callsLeft, hphase, Put.goTo]
              omega
            · cases hturn
              have := taken_pos byte rest hshort
              simp only [callsLeft, hphase, Put.goTo, List.length_drop, List.length_cons]
              omega
  | persist name attempts =>
      simp only [hphase] at hturn
      have hleft : callsLeft t = (3 - attempts) + 3 := by simp only [callsLeft, hphase]
      rw [hleft]
      split at hturn
      · cases hturn
        exact callsLeft_notPersisted { t with renames := _ } name attempts _
      · split at hturn
        · cases hturn
          exact callsLeft_notPersisted t name attempts _
        · cases hturn
          simp only [callsLeft]
          omega
  | remove name error =>
      simp only [hphase] at hturn
      split at hturn
      · cases hturn
        simp only [callsLeft, hphase]
        omega
      · cases hturn
        simp only [callsLeft, hphase]
        omega
  | ended result =>
      simp only [hphase] at hturn
      cases hturn

/-- The answers to a put's calls that it gets over: no call fails, and at most three renames do, for a
transient reason. -/
structure Favoured (t : Put) : Prop where
  calls : ∀ answer ∈ t.calls, answer = .whole ∨ ∃ n, answer = .short (n + 1)
  few : t.renames.length ≤ 3
  renames : ∀ kind ∈ t.renames, transient kind = true

variable (store compute) in
/-- Where a favoured put stands, for which a name it draws stays free. -/
structure Promising (name : TempName) (t : Put) (fs : Fs) : Prop where
  calls : ∀ answer ∈ t.calls, answer = .whole ∨ ∃ n, answer = .short (n + 1)
  renames : ∀ kind ∈ t.renames, transient kind = true
  phase :
    match t.phase with
    | .lookup | .shard | .create =>
        name ∈ t.names ∧ fs (store.tempPath (compute t.data) name) = none ∧ t.renames.length ≤ 3
    | .write _ _ => t.renames.length ≤ 3
    | .persist _ attempts => attempts + t.renames.length ≤ 3
    | .remove _ _ => False
    | .ended result => result = .ok (compute t.data)

theorem answer_cases {t : Put} (h : ∀ answer ∈ t.calls, answer = .whole ∨ ∃ n, answer = .short (n + 1)) :
    t.answer = .whole ∨ ∃ n, t.answer = .short (n + 1) := by
  unfold Put.answer
  cases hcalls : t.calls with
  | nil =>
      exact Or.inl rfl
  | cons a calls =>
      exact h a (by simp [hcalls])

/-- A free temporary name is still free when the directories of a blob have been made. -/
theorem createDirAll_temp {d : Digest} {name : TempName} (hs : Sound store compute fs)
    (hfree : fs (store.tempPath d name) = none) :
    ∃ made : Fs, fs.createDirAll [] (store.shardDir d) = .ok made ∧
      made (store.tempPath d name) = none := by
  obtain ⟨made, hmk, -, -, hkept⟩ := hs.tree.createDirAll (fun p hp => hs.on_way (d := d) hp)
  refine ⟨made, hmk, ?_⟩
  rw [(hkept _).2 (not_below_shardDir (Nat.le_of_eq length_tempPath.symm)), hfree]

theorem promising_turn {name : TempName} {i : Nat} {t t' : Put} {fs fs' : Fs}
    (hs : Sound store compute fs) (ht : Standing store compute t fs)
    (h : Promising store compute name t fs)
    (hturn : turn store compute i t fs = some (t', fs')) :
    Promising store compute name t' fs' := by
  -- With these two in the context `simp` drops the arms of a call that fails.
  have herror : ∀ kind, t.answer ≠ .error kind := by
    intro kind hkind
    rcases answer_cases h.calls with hanswer | ⟨n, hanswer⟩ <;> (rw [hkind] at hanswer; cases hanswer)
  have hzero : t.answer ≠ .short 0 := by
    intro hzero
    rcases answer_cases h.calls with hanswer | ⟨n, hanswer⟩ <;> (rw [hzero] at hanswer; cases hanswer)
  have htail : ∀ answer ∈ t.calls.tail, answer = .whole ∨ ∃ n, answer = .short (n + 1) :=
    fun answer hmem => h.calls answer (List.mem_of_mem_tail hmem)
  have hphase' := h.phase
  unfold turn at hturn
  cases hphase : t.phase with
  | lookup =>
      simp only [hphase] at hturn hphase'
      cases hturn
      refine ⟨htail, h.renames, ?_⟩
      by_cases hfound : store.exists? fs (compute t.data) = true
      · simp only [Put.goTo, hfound, if_true]
      · simp only [Put.goTo, hfound, Bool.false_eq_true, if_false]
        exact hphase'
  | shard =>
      simp only [hphase] at hturn hphase'
      obtain ⟨hname, hfree, hfew⟩ := hphase'
      obtain ⟨made, hmk, hfree'⟩ := createDirAll_temp hs hfree
      simp only [hmk] at hturn
      cases hturn
      exact ⟨htail, h.renames, hname, hfree', hfew⟩
  | create =>
      simp only [hphase] at hturn hphase'
      simp only [Standing, hphase] at ht
      obtain ⟨hname, hfree, hfew⟩ := hphase'
      cases hnames : t.names with
      | nil =>
          rw [hnames] at hname
          cases hname
      | cons drawn names =>
          simp only [hnames] at hturn
          rw [tempPath, hs.tree.createNew_eq ht, ← tempPath] at hturn
          cases hdrawn : fs (store.tempPath (compute t.data) drawn) with
          | some node =>
              -- The name that is drawn is taken, so it is not the one that is free.
              simp only [hdrawn] at hturn
              cases hturn
              rw [hnames] at hname
              rcases List.mem_cons.1 hname with rfl | hname
              · rw [hfree] at hdrawn
                cases hdrawn
              · exact ⟨htail, h.renames, hname, hfree, hfew⟩
          | none =>
              simp only [hdrawn] at hturn
              cases hturn
              exact ⟨htail, h.renames, hfew⟩
  | write temp rest =>
      simp only [hphase] at hphase'
      simp only [Standing, hphase] at ht
      obtain ⟨written, executable, -, htemp⟩ := ht
      cases rest with
      | nil =>
          simp only [hphase] at hturn
          cases hturn
          refine ⟨h.calls, h.renames, ?_⟩
          simp only [Nat.zero_add]
          exact hphase'
      | cons byte rest =>
          simp only [hphase] at hturn
          split at hturn
          · exact absurd ‹_› (herror _)
          · exact absurd ‹_› (herror _)
          · exact absurd ‹_› hzero
          · simp only [hs.tree.append_eq htemp] at hturn
            cases hturn
            exact ⟨htail, h.renames, hphase'⟩
  | persist temp attempts =>
      simp only [hphase] at hturn hphase'
      simp only [Standing, hphase] at ht
      obtain ⟨executable, htemp⟩ := ht
      split at hturn
      · rename_i kind renames hrenames
        cases hturn
        rw [hrenames, List.length_cons] at hphase'
        have htransient := h.renames kind (by simp [hrenames])
        refine ⟨h.calls, fun k hk => h.renames k (by simp [hrenames, hk]), ?_⟩
        simp only [notPersisted, htransient, if_true, show attempts < 3 by omega]
        omega
      · have hdir : fs (store.shardDir (compute t.data)) = some .dir :=
          hs.tree _ _ _ (List.prefix_append _ _) (Fs.child_ne _ _) htemp
        have hblob : fs (store.blobPath (compute t.data)) ≠ some .dir := hs.blob_ne_dir _
        rw [blobPath] at hblob
        simp only [blobPath, hs.tree.rename_eq htemp hdir hblob] at hturn
        cases hturn
        exact ⟨h.calls, h.renames, rfl⟩
  | remove temp error =>
      simp only [hphase] at hphase'
  | ended result =>
      simp only [hphase] at hturn
      cases hturn

variable (store compute) in
/-- A put has not drawn a name, and has no temporary file of that name in the directory of `d`. -/
def Avoids (name : TempName) (d : Digest) (t : Put) : Prop :=
  name ∉ t.names ∧ tempPath? store compute t ≠ some (store.tempPath d name)

theorem tempPath_inj {d d' : Digest} {name name' : TempName}
    (h : store.tempPath d name = store.tempPath d' name') : name = name' := by
  have hlast := (List.cons.inj (List.append_inj_right' h rfl)).1
  cases name
  cases name'
  simpa [String.append_right_inj] using hlast

theorem Avoids.call {name : TempName} {d : Digest} {t t' : Put} {fs fs' : Fs}
    (h : Avoids store compute name d t)
    (hcall : Call store compute t t' fs fs') :
    Avoids store compute name d t' := by
  refine ⟨fun hmem => h.1 (hcall.names hmem), ?_⟩
  intro htemp
  rcases hcall.moves.temp hcall.data htemp with hold | ⟨-, drawn, hdrawn, hpath⟩
  · exact h.2 hold
  · exact h.1 (tempPath_inj hpath ▸ hdrawn)

/-- A favoured put is not disturbed by a call of a put that avoids its name. -/
theorem Promising.others {name : TempName} {t t' u : Put} {fs fs' : Fs}
    (h : Promising store compute name u fs)
    (ht : Avoids store compute name (compute u.data) t)
    (hcall : Call store compute t t' fs fs') :
    Promising store compute name u fs' := by
  have hkept : fs' (store.tempPath (compute u.data) name) = fs (store.tempPath (compute u.data) name) :=
    (hcall.moves.frame hcall.data ht.2 (ht.call hcall).2 tempPath_ne_blobPath).2
      (not_below_shardDir (Nat.le_of_eq length_tempPath.symm))
  refine ⟨h.calls, h.renames, ?_⟩
  have hphase := h.phase
  cases hu : u.phase with
  | lookup | shard | create =>
      simp only [hu] at hphase ⊢
      rwa [hkept]
  | write _ _ | persist _ _ | ended _ =>
      simpa only [hu] using hphase
  | remove _ _ =>
      simp only [hu] at hphase

variable (store compute) in
/-- What is known of the favoured put, and of the others. -/
def Beside (i₀ : Nat) (name : TempName) (d : Digest) (i : Nat) (t : Put) (fs : Fs) : Prop :=
  Standing store compute t fs ∧
    ((i = i₀ → compute t.data = d ∧ Promising store compute name t fs) ∧
      (i ≠ i₀ → Avoids store compute name d t))

theorem beside_after {i₀ : Nat} {name : TempName} {d : Digest} {p : Pool Put Fs}
    (h : Pool.HoldsApart (Sound store compute) (Beside store compute i₀ name d)
      (Apart store compute) p) (schedule : List Nat) :
    Pool.HoldsApart (Sound store compute) (Beside store compute i₀ name d)
      (Apart store compute)
      (after (Pool.step (turn store compute)) p schedule) := by
  refine Pool.holdsApart_after (fun _ _ => Apart.symm) ?_ ?_ h schedule
  · rintro i t fs t' fs' hs ⟨ht, hfavoured, hothers⟩ hturn
    have hcall := turn_call hs ht hturn
    refine ⟨hcall.moves.sound hs ht, hcall.moves.standing ht hcall.data, ?_, ?_⟩
    · intro hi
      obtain ⟨hd, hpromising⟩ := hfavoured hi
      exact ⟨by rw [hcall.data, hd], promising_turn hs ht hpromising hturn⟩
    · intro hi
      exact (hothers hi).call hcall
  · rintro i t fs t' fs' j u hne hs ⟨ht, -, hothers⟩ hturn ⟨hu, hfavoured, havoids⟩ hapart
    have hcall := turn_call hs ht hturn
    obtain ⟨hu', hapart'⟩ := hcall.moves.others hcall.data hu hapart
    refine ⟨⟨hu', ?_, havoids⟩, hapart'⟩
    intro hj
    obtain ⟨hd, hpromising⟩ := hfavoured hj
    exact ⟨hd, hpromising.others (hd ▸ hothers (fun hi => hne (hj.trans hi.symm))) hcall⟩

/-- A put ends by a bounded number of calls of its own, whatever the others do; and when its calls do not
fail, its renames fail at most three times and for a transient reason, and it draws a name that no other put
draws, it ends with the digest of its data. -/
theorem put_ends (htree : fs.IsTree)
    (hempty : ∀ p, root ++ ["objects"] <+: p → p ≠ root ++ ["objects"] → fs p = none)
    (hnew : new root fs = .ok (store, fs₀)) (hstart : ∀ t ∈ puts, t.phase = .lookup)
    {i : Nat} {t : Put} (ht : puts[i]? = some t) {schedule : List Nat}
    (hcount : t.calls.length + t.names.length + t.data.length + 12 ≤ schedule.count i) :
    ∃ t' : Put, (run store compute puts fs₀ schedule).tasks[i]? = some t' ∧ HasEnded t' ∧
      (Favoured t → (∃ name ∈ t.names, ∀ (j : Nat) (u : Put), j ≠ i → puts[j]? = some u →
        name ∉ u.names) → t'.phase = .ended (.ok (compute t.data))) := by
  have hlookup : ∀ (j : Nat) (u : Put), puts[j]? = some u → u.phase = .lookup := fun j u hu =>
    hstart u (List.mem_of_getElem? hu)
  have hleft : callsLeft t ≤ schedule.count i := by
    simpa only [callsLeft, hlookup i t ht] using hcount
  have hcan : ∀ (i : Nat) (t : Put) (fs : Fs), ¬ HasEnded t →
      (turn store compute i t fs).isSome = true := fun _ _ _ hnot =>
    Option.isSome_iff_ne_none.2 (fun hnone => hnot (turn_eq_none_iff.1 hnone))
  -- It ends because each of its turns leaves it fewer calls, whatever happens between them.
  obtain ⟨t', ht', hended⟩ := Pool.ended_of_count (p := ⟨puts, fs₀⟩)
    (fun _ _ _ _ _ => callsLeft_turn) hcan (fun _ _ _ hend => turn_eq_none_iff.2 hend) ht hleft
  refine ⟨t', ht', hended, ?_⟩
  rintro hfavoured ⟨name, hname, hothers⟩
  -- It succeeds because the name that is its own stays free for it.
  obtain ⟨-, -, hnone⟩ := new_ok htree hempty hnew
  have hbelow : store.objectsDir <+: store.tempPath (compute t.data) name :=
    (List.prefix_append _ _).trans (List.prefix_append _ _)
  have hfree := hnone _ hbelow (objectsDir_ne length_tempPath).symm
  have hrun : Running store compute ⟨puts, fs₀⟩ :=
    running_start (sound_new htree hempty hnew) hstart
  have hbeside : Pool.HoldsApart (Sound store compute)
      (Beside store compute i name (compute t.data))
      (Apart store compute) ⟨puts, fs₀⟩ := by
    refine ⟨⟨hrun.shared, ?_⟩, hrun.apart⟩
    intro j u hu
    refine ⟨hrun.task j u hu, ?_, ?_⟩
    · rintro rfl
      obtain rfl : t = u := Option.some.inj (ht.symm.trans hu)
      refine ⟨rfl, hfavoured.calls, hfavoured.renames, ?_⟩
      simp only [hlookup j t ht]
      exact ⟨hname, hfree, hfavoured.few⟩
    · intro hj
      refine ⟨hothers j u hj hu, ?_⟩
      simp only [tempPath?, hlookup j u hu]
      simp
  obtain ⟨hd, hpromising⟩ := ((beside_after hbeside schedule).task i t' ht').2.1 rfl
  obtain ⟨result, hresult⟩ := hended
  have hphase := hpromising.phase
  simp only [hresult] at hphase
  rw [hresult, hphase, hd]

theorem firstPut_favoured : Favoured (.start helloWorld [.whole, .whole, .whole, .short 4]
    [⟨"aB3xY9"⟩] [.permissionDenied] true) where
  calls := by simp [Put.start]
  few := by decide
  renames := by decide

theorem put_ends_twoPuts : ∃ store fs₀, new ["cas"] Fs.emptyDir = .ok (store, fs₀) ∧
    ∃ t : Put, (run store sha256 twoPuts fs₀ (List.replicate 20 1 ++ List.replicate 28 0)).tasks[0]? =
      some t ∧ t.phase = .ended (.ok (sha256 helloWorld)) := by
  obtain ⟨store, fs₀, hnew⟩ := exists_new_emptyDir
  have hcount : 28 ≤ (List.replicate 20 1 ++ List.replicate 28 0).count 0 := by decide
  have htree := Fs.isTree_of_represents represents_emptyDir
  have hfirst : twoPuts[0]? = some (.start helloWorld [.whole, .whole, .whole, .short 4]
    [⟨"aB3xY9"⟩] [.permissionDenied] true) := rfl
  obtain ⟨t, ht, -, hend⟩ := put_ends htree emptyDir_below hnew twoPuts_start hfirst hcount
  refine ⟨store, fs₀, hnew, t, ht, hend firstPut_favoured ⟨⟨"aB3xY9"⟩, List.mem_singleton_self _, ?_⟩⟩
  intro j u hj hu
  match j with
  | 0 => exact absurd rfl hj
  | 1 =>
      cases hu
      decide
  | j + 2 => cases hu

end Runs

end FsCasStore

end Cas
end Aivcs
