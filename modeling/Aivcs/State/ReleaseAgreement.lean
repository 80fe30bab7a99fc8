import Aivcs.State.ReleaseRegistry

/-!
# State.ReleaseAgreement — when the two release registries agree

The fake and the handle are driven by the same calls under one clock that never goes back.  The fake
takes the newest entry by position, the handle by `created_at`; they stay in step exactly as long as
no entry is appended at the very instant of the entry before it with other contents
(`registries_agree_iff_no_tie`).
-/

namespace Aivcs
namespace State

open Aivcs.Lib

/-- What the registries are compared by. -/
def ReleaseRecord.key (record : ReleaseRecord) : ContentDigest × ReleaseMetadata :=
  (record.specDigest, record.metadata)

/-! ## The order of the handle's history -/

namespace SurrealHandle

/-- Later, or at the same instant with the same contents. -/
def Follows (a b : ReleaseRecord) : Prop :=
  a.createdAt < b.createdAt ∨ (a.createdAt = b.createdAt ∧ a.key = b.key)

instance : IsTrans ReleaseRecord fun a b => b.createdAt ≤ a.createdAt :=
  ⟨fun _ _ _ hab hbc => le_trans hbc hab⟩

instance : Std.Total fun a b : ReleaseRecord => b.createdAt ≤ a.createdAt :=
  ⟨fun a b => le_total b.createdAt a.createdAt⟩

variable {l : List ReleaseRecord} {a b x : ReleaseRecord}

theorem Follows.le (h : Follows a b) : a.createdAt ≤ b.createdAt := by
  rcases h with h | ⟨h, _⟩
  · exact le_of_lt h
  · exact le_of_eq h

theorem Follows.trans (hab : Follows a b) (hbx : Follows b x) : Follows a x := by
  rcases hab with hab | ⟨hab, hkey⟩
  · exact Or.inl (lt_of_lt_of_le hab hbx.le)
  · rcases hbx with hbx | ⟨hbx, hkey'⟩
    · exact Or.inl (lt_of_le_of_lt (le_of_eq hab) hbx)
    · exact Or.inr ⟨hab.trans hbx, hkey.trans hkey'⟩

theorem Follows.key_eq (h : Follows a b) (hle : b.createdAt ≤ a.createdAt) : a.key = b.key := by
  rcases h with h | ⟨_, h⟩
  · exact absurd hle (not_le_of_gt h)
  · exact h

/-- When every entry follows those before it, sorting by time is reading backwards. -/
theorem map_key_insertionSort (h : l.Pairwise Follows) :
    (l.insertionSort fun a b => b.createdAt ≤ a.createdAt).map ReleaseRecord.key =
      (l.map ReleaseRecord.key).reverse := by
  -- Both orders are sorted by time, and entries of one instant have one key.
  let stamp : ReleaseRecord → Timestamp × (ContentDigest × ReleaseMetadata) :=
    fun record => (record.createdAt, record.key)
  have hsame : ∀ u ∈ l, ∀ v ∈ l, u.createdAt = v.createdAt → u.key = v.key := by
    intro u hu v hv huv
    have hpair : l.Pairwise fun a b => a.createdAt = b.createdAt → a.key = b.key :=
      h.imp fun hab heq => hab.key_eq (le_of_eq heq.symm)
    have hsymm : Std.Symm fun a b : ReleaseRecord => a.createdAt = b.createdAt → a.key = b.key :=
      ⟨fun a b hab heq => (hab heq.symm).symm⟩
    exact hpair.forall_of_forall (fun _ _ _ => rfl) hu hv huv
  have hstamp : (l.insertionSort fun a b => b.createdAt ≤ a.createdAt).map stamp =
      (l.map stamp).reverse := by
    refine @List.Perm.eq_of_pairwise _ (fun p q => q.1 ≤ p.1) _ _ ?_ ?_ ?_ ?_
    · intro p q hp hq hpq hqp
      obtain ⟨u, hu, rfl⟩ := List.mem_map.mp hp
      obtain ⟨v, hv, rfl⟩ := List.mem_map.mp (List.mem_reverse.mp hq)
      have heq : u.createdAt = v.createdAt := le_antisymm hqp hpq
      exact Prod.ext heq (hsame u ((List.mem_insertionSort _).mp hu) v hv heq)
    · rw [List.pairwise_map]
      exact List.pairwise_insertionSort _ l
    · rw [List.pairwise_reverse, List.pairwise_map]
      exact h.imp Follows.le
    · exact ((List.perm_insertionSort _ l).map stamp).trans (List.reverse_perm _).symm
  have hsnd := congrArg (List.map Prod.snd) hstamp
  simpa [List.map_reverse, Function.comp_def, stamp] using hsnd

/-- An entry of an instant that is taken, with other contents, is not listed first. -/
theorem follows_of_map_key {pre : List ReleaseRecord} (h : (pre ++ [b]).Pairwise Follows)
    (hle : b.createdAt ≤ x.createdAt)
    (hkeys : ((pre ++ [b] ++ [x]).insertionSort fun a b => b.createdAt ≤ a.createdAt).map
      ReleaseRecord.key = ((pre ++ [b] ++ [x]).map ReleaseRecord.key).reverse) : Follows b x := by
  rcases lt_or_eq_of_le hle with hlt | heq
  · exact Or.inl hlt
  · have hsorted := map_key_insertionSort h
    cases hcs : (pre ++ [b]).insertionSort fun a b => b.createdAt ≤ a.createdAt with
    | nil =>
        simp [hcs] at hsorted
    | cons c cs =>
        -- `c` is the first entry of the newest instant, which is that of `b` and of `x`.
        have hckey : c.key = b.key := by
          simpa [hcs] using congrArg List.head? hsorted
        have hcx : x.createdAt ≤ c.createdAt := by
          have hmem : b ∈ c :: cs := by
            rw [← hcs, List.mem_insertionSort]
            simp
          have hdesc := List.pairwise_insertionSort
            (fun a b : ReleaseRecord => b.createdAt ≤ a.createdAt) (pre ++ [b])
          rw [hcs, List.pairwise_cons] at hdesc
          rcases List.mem_cons.mp hmem with hbc | hmem
          · rw [← heq, hbc]
          · exact le_trans (le_of_eq heq.symm) (hdesc.1 b hmem)
        have hhead := head?_insertionSort_concat
          (fun a b : ReleaseRecord => b.createdAt ≤ a.createdAt) x
          (congrArg List.head? hcs)
        rw [if_pos hcx] at hhead
        have hxkey := congrArg List.head? hkeys
        rw [List.head?_map, hhead] at hxkey
        have hcxkey : c.key = x.key := by simpa using hxkey
        exact Or.inr ⟨heq, hckey.symm.trans hcxkey⟩

end SurrealHandle

/-! ## Both registries under one clock -/

inductive ReleaseOp where
  | promote (specDigest : ContentDigest) (metadata : ReleaseMetadata)
  | rollback

/-- A call, made `delay` after the call before it. -/
structure TimedCall where
  delay : Nat
  name : String
  op : ReleaseOp

def MemoryReleaseRegistry.call (releases : Releases) (now : Timestamp) (name : String) :
    ReleaseOp → Except StorageError ReleaseRecord × Releases
  | .promote specDigest metadata => promote releases now name specDigest metadata
  | .rollback => rollback releases name

def SurrealHandle.call (releases : Releases) (now : Timestamp) (name : String) :
    ReleaseOp → Except StorageError ReleaseRecord × Releases
  | .promote specDigest metadata => releasePromote releases now name specDigest metadata
  | .rollback => releaseRollback releases now name

structure Registries where
  memory : Releases
  handle : Releases
  now : Timestamp

namespace Registries

def start (now : Timestamp) : Registries :=
  ⟨∅, ∅, now⟩

variable (s : Registries) (c : TimedCall)

def clock : Timestamp :=
  s.now + c.delay

def callMemory : Except StorageError ReleaseRecord × Releases :=
  MemoryReleaseRegistry.call s.memory (clock s c) c.name c.op

def callHandle : Except StorageError ReleaseRecord × Releases :=
  SurrealHandle.call s.handle (clock s c) c.name c.op

def step : Registries :=
  ⟨(callMemory s c).2, (callHandle s c).2, clock s c⟩

/-- The same current release and the same history, of every name. -/
def SameReleases (s : Registries) : Prop :=
  ∀ name,
    (MemoryReleaseRegistry.current s.memory name).map ReleaseRecord.key =
      (SurrealHandle.releaseCurrent s.handle name).map ReleaseRecord.key ∧
    (MemoryReleaseRegistry.history s.memory name).map ReleaseRecord.key =
      (SurrealHandle.releaseHistory s.handle name).map ReleaseRecord.key

/-- The call is answered alike and leaves the same releases. -/
def Agree : Prop :=
  (callMemory s c).1.map ReleaseRecord.key = (callHandle s c).1.map ReleaseRecord.key ∧
    SameReleases (step s c)

/-- What the call appends is later than the newest entry, or has its contents. -/
def NoTie : Prop :=
  match c.op with
  | .promote specDigest metadata =>
      ∀ pre b, s.handle.entries c.name = pre ++ [b] →
        b.createdAt < clock s c ∨ b.key = (specDigest, metadata)
  | .rollback =>
      ∀ pre a b, s.handle.entries c.name = pre ++ [a, b] →
        b.createdAt < clock s c ∨ b.key = a.key

/-- What holds while the registries agree. -/
structure Inv (s : Registries) : Prop where
  keys : ∀ name, (s.memory.entries name).map ReleaseRecord.key =
    (s.handle.entries name).map ReleaseRecord.key
  nonempty : ∀ name, s.memory name ≠ some []
  ordered : ∀ name, (s.handle.entries name).Pairwise SurrealHandle.Follows
  past : ∀ name, ∀ record ∈ s.handle.entries name, record.createdAt ≤ s.now

variable {s c}

theorem Inv.init (now : Timestamp) : Inv (start now) where
  keys _ := rfl
  nonempty _ h := nomatch h
  ordered _ := List.Pairwise.nil
  past _ _ h := nomatch h

theorem Inv.history_keys (h : Inv s) (name : String) :
    (SurrealHandle.releaseHistory s.handle name).map ReleaseRecord.key =
      ((s.memory.entries name).map ReleaseRecord.key).reverse := by
  rw [h.keys]
  exact SurrealHandle.map_key_insertionSort (h.ordered name)

/-- While the invariant holds, the registries show the same. -/
theorem Inv.sameReleases (h : Inv s) : SameReleases s := by
  intro name
  have hhistory := h.history_keys name
  refine ⟨?_, ?_⟩
  · have hhead := congrArg List.head? hhistory
    rw [List.head?_map, List.head?_reverse, List.getLast?_map] at hhead
    rw [MemoryReleaseRegistry.current_eq]
    exact hhead.symm
  · rw [hhistory, ← List.map_reverse]
    rfl

/-- A call appends the same contents to both registries. -/
structure Appends (s : Registries) (c : TimedCall) (m x : ReleaseRecord) : Prop where
  memory : callMemory s c = (.ok m, s.memory.push c.name m)
  handle : callHandle s c = (.ok x, s.handle.push c.name x)
  key_eq : m.key = x.key
  createdAt_eq : x.createdAt = clock s c
  noTie_iff : NoTie s c ↔ ∀ pre b, s.handle.entries c.name = pre ++ [b] →
    b.createdAt < x.createdAt ∨ b.key = x.key

theorem Appends.step_eq {m x : ReleaseRecord} (h : Appends s c m x) :
    step s c = ⟨s.memory.push c.name m, s.handle.push c.name x, clock s c⟩ := by
  unfold step
  rw [h.memory, h.handle]

theorem appends_promote (delay : Nat) (name : String) (d : ContentDigest) (m : ReleaseMetadata) :
    Appends s ⟨delay, name, .promote d m⟩ ⟨name, d, m, s.now + delay⟩ ⟨name, d, m, s.now + delay⟩ :=
  ⟨rfl, rfl, rfl, rfl, Iff.rfl⟩

theorem exists_pair_of_map_key {l : List ReleaseRecord} {a b : ReleaseRecord}
    {keys : List (ContentDigest × ReleaseMetadata)}
    (h : l.map ReleaseRecord.key = keys ++ [a.key, b.key]) :
    ∃ pre a' b', l = pre ++ [a', b'] ∧ a'.key = a.key := by
  obtain ⟨pre, tail, rfl, -, htail⟩ := List.map_eq_append_iff.mp h
  obtain ⟨a', tail', rfl, ha', htail'⟩ := List.map_eq_cons_iff.mp htail
  obtain ⟨b', _, rfl, -, hnil⟩ := List.map_eq_cons_iff.mp htail'
  obtain rfl := List.map_eq_nil_iff.mp hnil
  exact ⟨pre, a', b', rfl, ha'⟩

section Rollback

variable {delay : Nat} {name : String}

/-- A call fails in both registries with one error, and makes no tie. -/
def Fails (s : Registries) (c : TimedCall) : Prop :=
  ∃ e, callMemory s c = (.error e, s.memory) ∧ callHandle s c = (.error e, s.handle) ∧ NoTie s c

/-- A name with less than two entries cannot be rolled back to anything. -/
theorem Inv.noTie_of_short (h : Inv s) (hshort : (s.memory.entries name).length < 2) :
    NoTie s ⟨delay, name, .rollback⟩ := by
  intro pre a b hentries
  have hlength : (s.memory.entries name).length = (s.handle.entries name).length := by
    simpa using congrArg List.length (h.keys name)
  rw [hlength, hentries, List.length_append] at hshort
  exact absurd hshort (Nat.not_lt.mpr (Nat.le_add_left 2 pre.length))

theorem Inv.rollback_empty (h : Inv s)
    (hhistory : SurrealHandle.releaseHistory s.handle name = []) :
    Fails s ⟨delay, name, .rollback⟩ := by
  have hnil : s.memory.entries name = [] := by
    simpa [hhistory] using (h.history_keys name).symm
  have hnone : s.memory name = none := by
    cases hm : s.memory name with
    | none =>
        rfl
    | some history =>
        have hempty : history = [] := by simpa [Releases.entries, hm] using hnil
        exact absurd (hempty ▸ hm) (h.nonempty name)
  refine ⟨.releaseNotFound name, ?_, ?_, h.noTie_of_short (by simp [hnil])⟩
  · simp [callMemory, MemoryReleaseRegistry.call, MemoryReleaseRegistry.rollback, hnone]
  · simp [callHandle, SurrealHandle.call, SurrealHandle.releaseRollback, hhistory]

theorem Inv.rollback_single (h : Inv s) {b : ReleaseRecord}
    (hhistory : SurrealHandle.releaseHistory s.handle name = [b]) :
    Fails s ⟨delay, name, .rollback⟩ := by
  have hone : (s.memory.entries name).length = 1 := by
    simpa [hhistory] using (congrArg List.length (h.history_keys name)).symm
  refine ⟨.noPreviousRelease name, ?_, ?_, h.noTie_of_short (by omega)⟩
  · cases hm : s.memory name with
    | none =>
        simp [Releases.entries, hm] at hone
    | some history =>
        have hlen : history.length = 1 := by simpa [Releases.entries, hm] using hone
        simp [callMemory, MemoryReleaseRegistry.call, MemoryReleaseRegistry.rollback, hm, hlen]
  · simp [callHandle, SurrealHandle.call, SurrealHandle.releaseRollback, hhistory]

/-- When the entries end in `a, b`, a rollback ties exactly when `a`, appended again, would. -/
theorem noTie_rollback_iff {pre : List ReleaseRecord} {a b : ReleaseRecord}
    (hentries : s.handle.entries name = pre ++ [a, b]) {key : ContentDigest × ReleaseMetadata}
    (hkey : a.key = key) : NoTie s ⟨delay, name, .rollback⟩ ↔
      ∀ pre b, s.handle.entries name = pre ++ [b] → b.createdAt < s.now + delay ∨ b.key = key := by
  have hlast : s.handle.entries name = (pre ++ [a]) ++ [b] := by simpa using hentries
  constructor
  · intro hnoTie pre₁ b₁ hb₁
    obtain ⟨-, hb⟩ := List.append_inj' (hlast.symm.trans hb₁) rfl
    obtain rfl : b = b₁ := by simpa using hb
    rw [← hkey]
    exact hnoTie pre a b hentries
  · intro hlater pre₁ a₁ b₁ hab
    obtain ⟨-, hab⟩ := List.append_inj' (hentries.symm.trans hab) rfl
    obtain ⟨rfl, rfl⟩ : a = a₁ ∧ b = b₁ := by simpa using hab
    rw [hkey]
    exact hlater _ b hlast

/-- With a release before the current one, both append that one again. -/
theorem Inv.rollback_appends (h : Inv s) {a b : ReleaseRecord} {rest : List ReleaseRecord}
    (hhistory : SurrealHandle.releaseHistory s.handle name = b :: a :: rest) :
    ∃ m x, Appends s ⟨delay, name, .rollback⟩ m x := by
  have hkeys := h.history_keys name
  rw [hhistory] at hkeys
  -- The fake's entries are the same contents backwards.
  have hmemory : (s.memory.entries name).map ReleaseRecord.key =
      (rest.map ReleaseRecord.key).reverse ++ [a.key, b.key] := by
    simpa using (congrArg List.reverse hkeys).symm
  obtain ⟨pre, a', b', hentries, ha'⟩ := exists_pair_of_map_key hmemory
  obtain ⟨pre', a'', b'', hentries', ha''⟩ :=
    exists_pair_of_map_key ((h.keys name).symm.trans hmemory)
  refine ⟨a', ⟨name, a.specDigest, a.metadata, s.now + delay⟩, ?_, ?_, ha', rfl, ?_⟩
  · exact MemoryReleaseRegistry.rollback_eq hentries
  · simp only [callHandle, SurrealHandle.call, SurrealHandle.releaseRollback, hhistory]
    rfl
  · exact noTie_rollback_iff hentries' ha''

end Rollback

/-- A call fails in both registries, or appends the same contents to both. -/
theorem Inv.call_cases (h : Inv s) (c : TimedCall) : Fails s c ∨ ∃ m x, Appends s c m x := by
  obtain ⟨delay, name, op⟩ := c
  cases op with
  | promote d m =>
      exact Or.inr ⟨_, _, appends_promote delay name d m⟩
  | rollback =>
      rcases hhistory : SurrealHandle.releaseHistory s.handle name with _ | ⟨b, _ | ⟨a, rest⟩⟩
      · exact Or.inl (h.rollback_empty hhistory)
      · exact Or.inl (h.rollback_single hhistory)
      · exact Or.inr (h.rollback_appends hhistory)

theorem le_clock : s.now ≤ clock s c :=
  Int.le_add_of_nonneg_right (Int.natCast_nonneg c.delay)

/-- The instant of the newest entry is not after the clock's. -/
theorem Inv.follows_iff (h : Inv s) {m x b : ReleaseRecord} (ha : Appends s c m x)
    (hb : b ∈ s.handle.entries c.name) :
    SurrealHandle.Follows b x ↔ b.createdAt < x.createdAt ∨ b.key = x.key := by
  have hle : b.createdAt ≤ x.createdAt :=
    ha.createdAt_eq ▸ le_trans (h.past c.name b hb) le_clock
  constructor
  · intro hfollows
    exact hfollows.imp_right And.right
  · intro hor
    rcases lt_or_eq_of_le hle with hlt | heq
    · exact Or.inl hlt
    · exact hor.imp_right fun hkey => ⟨heq, hkey⟩

theorem Inv.step_of_error (h : Inv s) (hmemory : (callMemory s c).2 = s.memory)
    (hhandle : (callHandle s c).2 = s.handle) : Inv (step s c) := by
  unfold step
  rw [hmemory, hhandle]
  exact ⟨h.keys, h.nonempty, h.ordered,
    fun name record hr => le_trans (h.past name record hr) le_clock⟩

/-- Appending an entry that follows the newest one keeps the invariant. -/
theorem Inv.step_of_appends (h : Inv s) {m x : ReleaseRecord} (ha : Appends s c m x)
    (hnoTie : NoTie s c) : Inv (step s c) := by
  have hlater := ha.noTie_iff.mp hnoTie
  -- Every entry of the name is the newest one or is followed by it, so the new one follows all.
  have hfollows : ∀ a ∈ s.handle.entries c.name, SurrealHandle.Follows a x := by
    intro a hmem
    rcases List.eq_nil_or_concat' (s.handle.entries c.name) with hnil | ⟨pre, b, hlast⟩
    · simp [hnil] at hmem
    · have hb : b ∈ s.handle.entries c.name := by simp [hlast]
      have hbx := (h.follows_iff ha hb).mpr (hlater pre b hlast)
      have hordered := h.ordered c.name
      rw [hlast, List.pairwise_append] at hordered
      rw [hlast, List.mem_append, List.mem_singleton] at hmem
      rcases hmem with hmem | rfl
      · exact (hordered.2.2 a hmem b (List.mem_singleton_self b)).trans hbx
      · exact hbx
  rw [ha.step_eq]
  refine ⟨?_, ?_, ?_, ?_⟩
  · intro name
    by_cases hname : name = c.name
    · subst hname
      simp [h.keys, ha.key_eq]
    · simpa [Releases.entries_push_of_ne _ _ hname] using h.keys name
  · intro name hempty
    by_cases hname : name = c.name
    · subst hname
      exact Releases.push_ne_some_nil _ _ _ hempty
    · exact h.nonempty name ((Releases.push_of_ne _ _ hname).symm.trans hempty)
  · intro name
    by_cases hname : name = c.name
    · subst hname
      rw [Releases.entries_push_self, List.pairwise_append]
      refine ⟨h.ordered c.name, List.pairwise_singleton _ x, ?_⟩
      intro a hmem b hb
      rw [List.mem_singleton.mp hb]
      exact hfollows a hmem
    · rw [Releases.entries_push_of_ne _ _ hname]
      exact h.ordered name
  · intro name record hrecord
    by_cases hname : name = c.name
    · subst hname
      rw [Releases.entries_push_self, List.mem_append, List.mem_singleton] at hrecord
      rcases hrecord with hrecord | rfl
      · exact le_trans (h.past c.name record hrecord) le_clock
      · exact le_of_eq ha.createdAt_eq
    · rw [Releases.entries_push_of_ne _ _ hname] at hrecord
      exact le_trans (h.past name record hrecord) le_clock

theorem Inv.step (h : Inv s) (hnoTie : NoTie s c) : Inv (step s c) := by
  rcases h.call_cases c with ⟨e, hmemory, hhandle, -⟩ | ⟨m, x, ha⟩
  · exact h.step_of_error (by rw [hmemory]) (by rw [hhandle])
  · exact h.step_of_appends ha hnoTie

/-- Under the invariant, the registries agree on a call exactly when it makes no tie. -/
theorem Inv.agree_iff (h : Inv s) : Agree s c ↔ NoTie s c := by
  rcases h.call_cases c with ⟨e, hmemory, hhandle, hnoTie⟩ | ⟨m, x, ha⟩
  · refine iff_of_true ⟨?_, (h.step hnoTie).sameReleases⟩ hnoTie
    rw [hmemory, hhandle]
  · constructor
    · rintro ⟨-, hsame⟩
      rw [ha.noTie_iff]
      intro pre b hlast
      have hb : b ∈ s.handle.entries c.name := by simp [hlast]
      have hkeys := (hsame c.name).2
      have hmem : (s.memory.entries c.name).map ReleaseRecord.key =
          (pre ++ [b]).map ReleaseRecord.key := by
        rw [h.keys, hlast]
      have hordered := h.ordered c.name
      rw [hlast] at hordered
      refine (h.follows_iff ha hb).mp (SurrealHandle.follows_of_map_key hordered ?_ ?_)
      · exact ha.createdAt_eq ▸ le_trans (h.past c.name b hb) le_clock
      · rw [ha.step_eq] at hkeys
        simp only [MemoryReleaseRegistry.history, SurrealHandle.releaseHistory,
          Releases.entries_push_self, hlast] at hkeys
        rw [← hkeys, List.map_reverse, List.map_append, hmem]
        simp [ha.key_eq]
    · intro hnoTie
      refine ⟨?_, (h.step hnoTie).sameReleases⟩
      rw [ha.memory, ha.handle]
      exact congrArg Except.ok ha.key_eq

end Registries

open Registries

/-- Along every sequence of calls on any names under any clock that does not go back, the two
registries agree after every call if and only if no call appends, at the instant of the newest entry
of its name, an entry with other contents. -/
theorem registries_agree_iff_no_tie (now : Timestamp) (calls : List TimedCall) :
    EachStep step Agree (start now) calls ↔ EachStep step NoTie (start now) calls :=
  eachStep_congr (fun _ _ h => h.agree_iff) (fun _ _ h hi => h.step hi) (Inv.init now)

/-- A promotion at the instant of the call before it. -/
def demoPromote (specDigest : ContentDigest) : TimedCall :=
  ⟨0, "agent", .promote specDigest ⟨none, "ci", none⟩⟩

/-- Two promotions at one instant. -/
def demoCalls : List TimedCall :=
  [demoPromote (.replicate '1' rfl), demoPromote (.replicate '2' rfl)]

/-- The fake's current release is the second one, the handle's is still the first. -/
theorem registries_disagree_on_tie :
    ¬ EachStep step Agree (start 0) demoCalls ∧
    (MemoryReleaseRegistry.current (after step (start 0) demoCalls).memory "agent").map
      (·.specDigest) = some (.replicate '2' rfl) ∧
    (SurrealHandle.releaseCurrent (after step (start 0) demoCalls).handle "agent").map
      (·.specDigest) = some (.replicate '1' rfl) := by
  refine ⟨?_, rfl, rfl⟩
  intro hagree
  have hsecond : Agree (step (start 0) (demoPromote (.replicate '1' rfl))) _ :=
    hagree [demoPromote (.replicate '1' rfl)] (demoPromote (.replicate '2' rfl)) List.prefix_rfl
  have hcurrent := (hsecond.2 "agent").1
  revert hcurrent
  decide +kernel

end State
end Aivcs
