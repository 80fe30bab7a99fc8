import Aivcs.Domain.CanonicalJson
import Aivcs.Forge.Types
import Aivcs.Lib.Hash
import Aivcs.Lib.JsonLast
import Mathlib.Data.String.Basic

/-!
# NixEnv.Flake — the hash of a lock file

`hash_flake_lock` reads `flake.lock` into `FlakeLocks`, writes that as JSON and digests the text.  The structs name
some of the members of a lock file, and the others are not read.

Reading the text is code of another package, here the parameter `read`: it gives the document with its members as
they are written, also those that are repeated.

* `hashFlakeLock_covers_iff` — two lock files are told apart as they should be exactly when they differ in what the
  structs name if they differ at all.
-/

namespace Aivcs
namespace NixEnv

open Aivcs.Lib
open Aivcs.Domain (Number numberText FloatText)
open Aivcs.Forge (MapOrder)

/-! ## Lock files -/

@[ext]
structure LockedRef where
  owner : Option String
  repo : Option String
  rev : Option String
  refType : Option String
  narHash : Option String
  lastModified : Option (Fin (2 ^ 64))

@[ext]
structure FlakeLockNode where
  inputs : Option (Finmap fun _ : String => Doc Number)
  locked : Option LockedRef
  original : Option (Doc Number)

@[ext]
structure FlakeLocks where
  version : Fin (2 ^ 32)
  root : String
  nodes : Finmap fun _ : String => FlakeLockNode

/-! ## Reading -/

/-- A `serde_json::Value` as the map type of the build holds it. -/
def valueOf (o : MapOrder) (d : Doc Number) : Doc Number :=
  match o with
  | .sorted => (Doc.lastWins d).sortKeys id
  | .insertion => Doc.lastWins d

/-- An unsigned integer below the bound. -/
def uint? (bound : Nat) : Doc Number → Option (Fin bound)
  | .num (.int n _) => if h : 0 ≤ n ∧ n < bound then some ⟨n.toNat, by omega⟩ else none
  | _ => none

/-- `Option<T>`: `null` is `None`. -/
def option? {α : Type} (f : Doc Number → Option α) (d : Doc Number) : Option (Option α) :=
  if d.isNull then some none else (f d).map some

/-- `BTreeMap<String, T>`: all members are read, and the last of those with one key is kept. -/
def map? {α : Type} (f : Doc Number → Option α) : Doc Number → Option (Finmap fun _ : String => α)
  | .obj ms => (ms.mapM fun m => (f m.2).map fun a => (m.1, a)).map Doc.toFinmap
  | _ => none

/-- A field of a struct that is written as an object or as an array; `null` where there is none. -/
def fieldOf (names : List String) (d : Doc Number) (name : String) : Doc Number :=
  match d with
  | .obj ms => Doc.lastMember ms name
  | .arr xs => ((names.zip xs).lookup name).getD .null
  | _ => .null

/-- The fields of a struct: other members are ignored, and none of these may be repeated. -/
def struct? (names : List String) (d : Doc Number) : Option (String → Doc Number) :=
  match d with
  | .obj ms => if ∀ name ∈ names, (ms.map Prod.fst).count name ≤ 1 then some (fieldOf names d) else none
  | .arr xs => if xs.length = names.length then some (fieldOf names d) else none
  | _ => none

def lockedNames : List String :=
  ["owner", "repo", "rev", "type", "narHash", "lastModified"]

def nodeNames : List String :=
  ["inputs", "locked", "original"]

def locksNames : List String :=
  ["version", "root", "nodes"]

def LockedRef.ofDoc? (d : Doc Number) : Option LockedRef := do
  let field ← struct? lockedNames d
  let owner ← option? Doc.asStr? (field "owner")
  let repo ← option? Doc.asStr? (field "repo")
  let rev ← option? Doc.asStr? (field "rev")
  let refType ← option? Doc.asStr? (field "type")
  let narHash ← option? Doc.asStr? (field "narHash")
  let lastModified ← option? (uint? (2 ^ 64)) (field "lastModified")
  return ⟨owner, repo, rev, refType, narHash, lastModified⟩

def FlakeLockNode.ofDoc? (o : MapOrder) (d : Doc Number) : Option FlakeLockNode := do
  let field ← struct? nodeNames d
  let inputs ← option? (map? fun v => some (valueOf o v)) (field "inputs")
  let locked ← option? LockedRef.ofDoc? (field "locked")
  let original ← option? (fun v => some (valueOf o v)) (field "original")
  return ⟨inputs, locked, original⟩

def FlakeLocks.ofDoc? (o : MapOrder) (d : Doc Number) : Option FlakeLocks := do
  let field ← struct? locksNames d
  let version ← uint? (2 ^ 32) (field "version")
  let root ← Doc.asStr? (field "root")
  let nodes ← map? (FlakeLockNode.ofDoc? o) (field "nodes")
  return ⟨version, root, nodes⟩

/-! ## Writing -/

def uintDoc {bound : Nat} (hbound : bound ≤ 2 ^ 64) (n : Fin bound) : Doc Number :=
  .num (.int n.val ⟨by omega, by omega⟩)

def optionDoc {α : Type} (f : α → Doc Number) : Option α → Doc Number
  | none => .null
  | some a => f a

/-- The members in the order of their keys. -/
def mapMembers {α : Type} (f : α → Doc Number) (m : Finmap fun _ : String => α) : List (String × Doc Number) :=
  ((Iteration.sorted String).list m.keys).filterMap fun k => (m.lookup k).map fun a => (k, f a)

def LockedRef.toDoc (r : LockedRef) : Doc Number :=
  .obj [("owner", optionDoc .str r.owner), ("repo", optionDoc .str r.repo), ("rev", optionDoc .str r.rev),
    ("type", optionDoc .str r.refType), ("narHash", optionDoc .str r.narHash),
    ("lastModified", optionDoc (uintDoc (Nat.le_refl _)) r.lastModified)]

def FlakeLockNode.toDoc (n : FlakeLockNode) : Doc Number :=
  .obj [("inputs", optionDoc (fun m => .obj (mapMembers id m)) n.inputs), ("locked", optionDoc LockedRef.toDoc n.locked),
    ("original", optionDoc id n.original)]

def FlakeLocks.toDoc (l : FlakeLocks) : Doc Number :=
  .obj [("version", uintDoc (by decide) l.version), ("root", .str l.root),
    ("nodes", .obj (mapMembers FlakeLockNode.toDoc l.nodes))]

/-- `fmt` is how `serde_json` writes a float. -/
def hashFlakeLock (fmt : F64 → Bytes) (sha256Hex : Bytes → String) (read : Bytes → Option (Doc Number))
    (o : MapOrder) (content : Bytes) : Option String := do
  let d ← read content
  let locks ← FlakeLocks.ofDoc? o d
  return sha256Hex (locks.toDoc.render (numberText fmt))

/-! ## When lock files are the same -/

def isStruct : Doc Number → Bool
  | .obj _ => true
  | .arr _ => true
  | _ => false

/-- Objects with the same keys and related values under them. -/
def MapSame (R : Doc Number → Doc Number → Prop) (d d' : Doc Number) : Prop :=
  match d with
  | .obj ms =>
      match d' with
      | .obj ms' => ∀ key, (key ∈ ms.map Prod.fst ↔ key ∈ ms'.map Prod.fst) ∧
          (key ∈ ms.map Prod.fst → R (Doc.lastMember ms key) (Doc.lastMember ms' key))
      | d' => Doc.SameLast (.obj ms) d'
  | d => Doc.SameLast d d'

/-- Objects in which all members are related, a missing one counting as `null`; the fields, in arrays. -/
def StructSame (names : List String) (R : String → Doc Number → Doc Number → Prop) (d d' : Doc Number) : Prop :=
  match d, d' with
  | .arr xs, .arr ys => ∀ name ∈ names, R name (fieldOf names (.arr xs) name) (fieldOf names (.arr ys) name)
  | .obj ms, .obj ms' => ∀ name, R name (Doc.lastMember ms name) (Doc.lastMember ms' name)
  | d, d' => Doc.SameLast d d'

/-- Only the fields are related. -/
def FieldsSame (names : List String) (R : String → Doc Number → Doc Number → Prop) (d d' : Doc Number) : Prop :=
  if isStruct d && isStruct d' then ∀ name ∈ names, R name (fieldOf names d name) (fieldOf names d' name)
  else Doc.SameLast d d'

/-- Locked references with the same members. -/
def SameLocked : Doc Number → Doc Number → Prop :=
  StructSame lockedNames fun _ => Doc.SameLast

def SameNode : Doc Number → Doc Number → Prop :=
  StructSame nodeNames fun name => if name = "locked" then SameLocked else Doc.SameLast

/-- The documents are equal as JSON values, up to the order of members and to members that are `null`. -/
def SameLocks : Doc Number → Doc Number → Prop :=
  StructSame locksNames fun name => if name = "nodes" then MapSame SameNode else Doc.SameLast

/-- Equal values, of which the map type may remember the order of the members. -/
def ValueSame (o : MapOrder) (v v' : Doc Number) : Prop :=
  match o with
  | .sorted => Doc.SameLast v v'
  | .insertion => Doc.lastWins v = Doc.lastWins v'

def KeptLocked : Doc Number → Doc Number → Prop :=
  FieldsSame lockedNames fun _ => Doc.SameLast

def KeptNode (o : MapOrder) : Doc Number → Doc Number → Prop :=
  FieldsSame nodeNames fun name =>
    if name = "inputs" then MapSame (ValueSame o) else if name = "locked" then KeptLocked else ValueSame o

/-- The documents are equal in the members the structs name. -/
def KeptLocks (o : MapOrder) : Doc Number → Doc Number → Prop :=
  FieldsSame locksNames fun name => if name = "nodes" then MapSame (KeptNode o) else Doc.SameLast

/-! ## What reading tells apart -/

/-- Of two documents that are read, the same is read when they are related. -/
def Reads {α : Type} (f : Doc Number → Option α) (R : Doc Number → Doc Number → Prop) : Prop :=
  ∀ ⦃d d' a a'⦄, f d = some a → f d' = some a' → (a = a' ↔ R d d')

/-- Null is related to null alone, and not read where something must be. -/
structure NullApart (R : Doc Number → Doc Number → Prop) : Prop where
  null : R .null .null
  left : ∀ d, R .null d → d = .null
  right : ∀ d, R d .null → d = .null

section Relations

variable {R : Doc Number → Doc Number → Prop}

theorem lastWins_eq_null_iff {d : Doc Number} : Doc.lastWins d = .null ↔ d = .null := by
  cases d <;> simp [Doc.lastWins]

theorem nullApart_sameLast : NullApart (Doc.SameLast (N := Number)) where
  null := trivial
  left _ h := lastWins_eq_null_iff.1 (Doc.same_null_left.1 h)
  right _ h := lastWins_eq_null_iff.1 (Doc.same_null_right.1 h)

theorem nullApart_valueSame (o : MapOrder) : NullApart (ValueSame o) := by
  cases o with
  | sorted => exact nullApart_sameLast
  | insertion =>
      refine ⟨rfl, fun _ h => ?_, fun _ h => ?_⟩
      · exact lastWins_eq_null_iff.1 (Eq.symm h)
      · exact lastWins_eq_null_iff.1 h

theorem nullApart_mapSame : NullApart (MapSame R) where
  null := trivial
  left d h := by
    cases d <;> exact nullApart_sameLast.left _ h
  right d h := by
    cases d <;> exact nullApart_sameLast.right _ h

theorem nullApart_fieldsSame {names : List String} {R : String → Doc Number → Doc Number → Prop} :
    NullApart (FieldsSame names R) where
  null := trivial
  left d h := nullApart_sameLast.left d h
  right d h := by
    have hnot : (isStruct d && isStruct .null) = false := Bool.and_false _
    rw [FieldsSame, hnot] at h
    exact nullApart_sameLast.right d h

end Relations

section Readers

variable {α : Type} {f : Doc Number → Option α} {R : Doc Number → Doc Number → Prop}

theorem reads_asStr : Reads Doc.asStr? Doc.SameLast := by
  have hstr : ∀ {d : Doc Number} {s}, Doc.asStr? d = some s → d = .str s := by
    intro d s h
    cases d <;> cases h
    rfl
  intro d d' s s' h h'
  rw [hstr h, hstr h']
  rfl

theorem uint?_eq_some {bound : Nat} {d : Doc Number} {n : Fin bound} (h : uint? bound d = some n) :
    ∃ range, d = .num (.int n.val range) := by
  unfold uint? at h
  split at h
  · rename_i m range
    split_ifs at h with hm
    have hval : ((m.toNat : Nat) : Int) = m := Int.toNat_of_nonneg hm.1
    rw [← Option.some.inj h]
    refine ⟨by rw [hval]; exact range, ?_⟩
    simp [hval]
  · cases h

theorem reads_uint (bound : Nat) : Reads (uint? bound) Doc.SameLast := by
  intro d d' n n' h h'
  rcases uint?_eq_some h with ⟨range, rfl⟩
  rcases uint?_eq_some h' with ⟨range', rfl⟩
  have hnumbers : Doc.SameLast (.num (Number.int n.val range)) (.num (Number.int n'.val range')) ↔
      Number.int n.val range = Number.int n'.val range' := Iff.rfl
  rw [hnumbers, Number.int.injEq, Int.natCast_inj, Fin.ext_iff]

theorem reads_option (hf : Reads f R) (hR : NullApart R) : Reads (option? f) R := by
  intro d d' a a' h h'
  unfold option? at h h'
  by_cases hd : d.isNull = true
  · rw [if_pos hd] at h
    obtain rfl := Option.some.inj h
    obtain rfl := Doc.isNull_iff.1 hd
    by_cases hd' : d'.isNull = true
    · rw [if_pos hd'] at h'
      obtain rfl := Option.some.inj h'
      obtain rfl := Doc.isNull_iff.1 hd'
      exact ⟨fun _ => hR.null, fun _ => rfl⟩
    · rw [if_neg hd'] at h'
      rcases Option.map_eq_some_iff.1 h' with ⟨b, _, rfl⟩
      exact ⟨fun hnone => absurd hnone.symm (Option.some_ne_none _),
        fun hR' => absurd (Doc.isNull_iff.2 (hR.left d' hR')) hd'⟩
  · rw [if_neg hd] at h
    rcases Option.map_eq_some_iff.1 h with ⟨b, hb, rfl⟩
    by_cases hd' : d'.isNull = true
    · rw [if_pos hd'] at h'
      obtain rfl := Option.some.inj h'
      obtain rfl := Doc.isNull_iff.1 hd'
      exact ⟨fun hnone => absurd hnone (Option.some_ne_none _),
        fun hR' => absurd (Doc.isNull_iff.2 (hR.right d hR')) hd⟩
    · rw [if_neg hd'] at h'
      rcases Option.map_eq_some_iff.1 h' with ⟨b', hb', rfl⟩
      rw [Option.some_inj]
      exact hf hb hb'

theorem reads_value (o : MapOrder) : Reads (fun v => some (valueOf o v)) (ValueSame o) := by
  intro v v' a a' h h'
  rw [← Option.some.inj h, ← Option.some.inj h']
  cases o with
  | sorted =>
      exact Doc.sortKeys_eq_iff (fun _ _ h => h) (Doc.uniqueKeys_lastWins v) (Doc.uniqueKeys_lastWins v')
  | insertion => exact Iff.rfl

/-- What is found among the members that were read is what the member with the key is read as. -/
theorem lookup_of_forall₂ {ms : List (String × Doc Number)} {read : List (String × α)}
    (h : List.Forall₂ (fun m r => m.1 = r.1 ∧ f m.2 = some r.2) ms read) (key : String) :
    (ms.lookup key = none ∧ read.lookup key = none) ∨
      ∃ v a, ms.lookup key = some v ∧ f v = some a ∧ read.lookup key = some a := by
  induction h with
  | nil => exact Or.inl ⟨rfl, rfl⟩
  | @cons m r ms read hmr _ ih =>
      rcases m with ⟨k, v⟩
      rcases r with ⟨k', a⟩
      obtain ⟨rfl, hread⟩ := hmr
      by_cases hk : key = k
      · subst hk
        exact Or.inr ⟨v, a, by simp, hread, by simp⟩
      · have hne : (key == k) = false := beq_eq_false_iff_ne.2 hk
        simpa [List.lookup_cons, hne] using ih

theorem forall₂_of_mapM {ms : List (String × Doc Number)} {read : List (String × α)}
    (h : (ms.mapM fun m => (f m.2).map fun a => (m.1, a)) = some read) :
    List.Forall₂ (fun m r => m.1 = r.1 ∧ f m.2 = some r.2) ms read := by
  induction ms generalizing read with
  | nil =>
      cases h
      exact .nil
  | cons m ms ih =>
      rw [List.mapM_cons] at h
      rcases Option.bind_eq_some_iff.1 h with ⟨r, hr, h⟩
      rcases Option.bind_eq_some_iff.1 h with ⟨rest, hrest, h⟩
      rcases Option.map_eq_some_iff.1 hr with ⟨a, ha, rfl⟩
      cases h
      exact .cons ⟨rfl, ha⟩ (ih hrest)

/-- A map that was read holds under each key what the last member with it is read as. -/
theorem map?_cases {ms : List (String × Doc Number)} {m : Finmap fun _ : String => α} (h : map? f (.obj ms) = some m)
    (key : String) :
    (key ∉ ms.map Prod.fst ∧ m.lookup key = none) ∨
      (key ∈ ms.map Prod.fst ∧ ∃ a, f (Doc.lastMember ms key) = some a ∧ m.lookup key = some a) := by
  rcases Option.map_eq_some_iff.1 h with ⟨read, hread, rfl⟩
  -- The last member with a key is the first one from the end.
  have hreverse := List.rel_reverse (forall₂_of_mapM hread)
  rw [Doc.lookup_toFinmap, Doc.lastMember]
  rcases lookup_of_forall₂ hreverse key with ⟨hnone, hread⟩ | ⟨v, a, hv, ha, hread⟩
  · exact Or.inl ⟨Doc.lookup_reverse_eq_none_iff.1 hnone, hread⟩
  · refine Or.inr ⟨?_, a, by rw [hv]; exact ha, hread⟩
    by_contra hmem
    rw [Doc.lookup_reverse_eq_none_iff.2 hmem] at hv
    cases hv

theorem reads_map (hf : Reads f R) : Reads (map? f) (MapSame R) := by
  intro d d' m m' h h'
  cases d with
  | obj ms =>
      cases d' with
      | obj ms' =>
          -- Key by key: it is in neither object, in both, or in one of them only.
          constructor
          · rintro rfl key
            rcases map?_cases h key with ⟨hmem, hnone⟩ | ⟨hmem, a, ha, hsome⟩
            · rcases map?_cases h' key with ⟨hmem', _⟩ | ⟨_, _, _, hsome'⟩
              · exact ⟨iff_of_false hmem hmem', fun hkey => absurd hkey hmem⟩
              · exact absurd (hnone.symm.trans hsome') (Option.some_ne_none _).symm
            · rcases map?_cases h' key with ⟨_, hnone'⟩ | ⟨hmem', a', ha', hsome'⟩
              · exact absurd (hsome.symm.trans hnone') (Option.some_ne_none _)
              · have heq : a = a' := Option.some.inj (hsome.symm.trans hsome')
                exact ⟨iff_of_true hmem hmem', fun _ => (hf ha ha').1 heq⟩
          · intro hsame
            refine Finmap.ext_lookup fun key => ?_
            rcases map?_cases h key with ⟨hmem, hnone⟩ | ⟨hmem, a, ha, hsome⟩
            · rcases map?_cases h' key with ⟨_, hnone'⟩ | ⟨hmem', _⟩
              · rw [hnone, hnone']
              · exact absurd ((hsame key).1.2 hmem') hmem
            · rcases map?_cases h' key with ⟨hmem', _⟩ | ⟨_, a', ha', hsome'⟩
              · exact absurd ((hsame key).1.1 hmem) hmem'
              · rw [hsome, hsome', (hf ha ha').2 ((hsame key).2 hmem)]
      | null | bool | num | str | arr => cases h'
  | null | bool | num | str | arr => cases h

end Readers

section Structs

variable {names : List String} {d d' : Doc Number}

theorem struct?_eq_some {field : String → Doc Number} (h : struct? names d = some field) :
    field = fieldOf names d ∧ isStruct d = true := by
  cases d with
  | obj ms =>
      rw [struct?] at h
      split_ifs at h
      exact ⟨(Option.some.inj h).symm, rfl⟩
  | arr xs =>
      rw [struct?] at h
      split_ifs at h
      exact ⟨(Option.some.inj h).symm, rfl⟩
  | null | bool | num | str => cases h

theorem fieldsSame_iff {R : String → Doc Number → Doc Number → Prop} (h : isStruct d = true)
    (h' : isStruct d' = true) :
    FieldsSame names R d d' ↔ ∀ name ∈ names, R name (fieldOf names d name) (fieldOf names d' name) := by
  rw [FieldsSame, h, h', Bool.and_true, if_pos rfl]

theorem LockedRef.ofDoc?_eq_some {r : LockedRef} (h : LockedRef.ofDoc? d = some r) :
    isStruct d = true ∧ option? Doc.asStr? (fieldOf lockedNames d "owner") = some r.owner ∧
      option? Doc.asStr? (fieldOf lockedNames d "repo") = some r.repo ∧
      option? Doc.asStr? (fieldOf lockedNames d "rev") = some r.rev ∧
      option? Doc.asStr? (fieldOf lockedNames d "type") = some r.refType ∧
      option? Doc.asStr? (fieldOf lockedNames d "narHash") = some r.narHash ∧
      option? (uint? (2 ^ 64)) (fieldOf lockedNames d "lastModified") = some r.lastModified := by
  rcases Option.bind_eq_some_iff.1 h with ⟨field, hfield, h⟩
  rcases struct?_eq_some hfield with ⟨rfl, hstruct⟩
  rcases Option.bind_eq_some_iff.1 h with ⟨owner, howner, h⟩
  rcases Option.bind_eq_some_iff.1 h with ⟨repo, hrepo, h⟩
  rcases Option.bind_eq_some_iff.1 h with ⟨rev, hrev, h⟩
  rcases Option.bind_eq_some_iff.1 h with ⟨refType, hrefType, h⟩
  rcases Option.bind_eq_some_iff.1 h with ⟨narHash, hnarHash, h⟩
  rcases Option.bind_eq_some_iff.1 h with ⟨lastModified, hlastModified, h⟩
  cases h
  exact ⟨hstruct, howner, hrepo, hrev, hrefType, hnarHash, hlastModified⟩

theorem reads_lockedRef : Reads LockedRef.ofDoc? KeptLocked := by
  intro d d' r r' h h'
  rcases LockedRef.ofDoc?_eq_some h with ⟨hstruct, howner, hrepo, hrev, hrefType, hnarHash, hlastModified⟩
  rcases LockedRef.ofDoc?_eq_some h' with ⟨hstruct', howner', hrepo', hrev', hrefType', hnarHash', hlastModified'⟩
  have htext := reads_option reads_asStr nullApart_sameLast
  rw [LockedRef.ext_iff, KeptLocked, fieldsSame_iff hstruct hstruct']
  simp only [lockedNames, List.forall_mem_cons, List.not_mem_nil, false_implies, implies_true, and_true]
  exact and_congr (htext howner howner') (and_congr (htext hrepo hrepo') (and_congr (htext hrev hrev')
    (and_congr (htext hrefType hrefType') (and_congr (htext hnarHash hnarHash')
      (reads_option (reads_uint _) nullApart_sameLast hlastModified hlastModified')))))

theorem FlakeLockNode.ofDoc?_eq_some {o : MapOrder} {n : FlakeLockNode} (h : FlakeLockNode.ofDoc? o d = some n) :
    isStruct d = true ∧ option? (map? fun v => some (valueOf o v)) (fieldOf nodeNames d "inputs") = some n.inputs ∧
      option? LockedRef.ofDoc? (fieldOf nodeNames d "locked") = some n.locked ∧
      option? (fun v => some (valueOf o v)) (fieldOf nodeNames d "original") = some n.original := by
  rcases Option.bind_eq_some_iff.1 h with ⟨field, hfield, h⟩
  rcases struct?_eq_some hfield with ⟨rfl, hstruct⟩
  rcases Option.bind_eq_some_iff.1 h with ⟨inputs, hinputs, h⟩
  rcases Option.bind_eq_some_iff.1 h with ⟨locked, hlocked, h⟩
  rcases Option.bind_eq_some_iff.1 h with ⟨original, horiginal, h⟩
  cases h
  exact ⟨hstruct, hinputs, hlocked, horiginal⟩

theorem FlakeLocks.ofDoc?_eq_some {o : MapOrder} {l : FlakeLocks} (h : FlakeLocks.ofDoc? o d = some l) :
    isStruct d = true ∧ uint? (2 ^ 32) (fieldOf locksNames d "version") = some l.version ∧
      Doc.asStr? (fieldOf locksNames d "root") = some l.root ∧
      map? (FlakeLockNode.ofDoc? o) (fieldOf locksNames d "nodes") = some l.nodes := by
  rcases Option.bind_eq_some_iff.1 h with ⟨field, hfield, h⟩
  rcases struct?_eq_some hfield with ⟨rfl, hstruct⟩
  rcases Option.bind_eq_some_iff.1 h with ⟨version, hversion, h⟩
  rcases Option.bind_eq_some_iff.1 h with ⟨root, hroot, h⟩
  rcases Option.bind_eq_some_iff.1 h with ⟨nodes, hnodes, h⟩
  cases h
  exact ⟨hstruct, hversion, hroot, hnodes⟩

theorem reads_flakeLockNode (o : MapOrder) : Reads (FlakeLockNode.ofDoc? o) (KeptNode o) := by
  intro d d' n n' h h'
  rcases FlakeLockNode.ofDoc?_eq_some h with ⟨hstruct, hinputs, hlocked, horiginal⟩
  rcases FlakeLockNode.ofDoc?_eq_some h' with ⟨hstruct', hinputs', hlocked', horiginal'⟩
  rw [FlakeLockNode.ext_iff, KeptNode, fieldsSame_iff hstruct hstruct']
  simp only [nodeNames, List.forall_mem_cons, List.not_mem_nil, false_implies, implies_true, and_true]
  exact and_congr (reads_option (reads_map (reads_value o)) nullApart_mapSame hinputs hinputs')
    (and_congr (reads_option reads_lockedRef nullApart_fieldsSame hlocked hlocked')
      (reads_option (reads_value o) (nullApart_valueSame o) horiginal horiginal'))

/-- Two lock files are read alike exactly when they are equal in the members the structs name. -/
theorem reads_flakeLocks (o : MapOrder) : Reads (FlakeLocks.ofDoc? o) (KeptLocks o) := by
  intro d d' l l' h h'
  rcases FlakeLocks.ofDoc?_eq_some h with ⟨hstruct, hversion, hroot, hnodes⟩
  rcases FlakeLocks.ofDoc?_eq_some h' with ⟨hstruct', hversion', hroot', hnodes'⟩
  rw [FlakeLocks.ext_iff, KeptLocks, fieldsSame_iff hstruct hstruct']
  simp only [locksNames, List.forall_mem_cons, List.not_mem_nil, false_implies, implies_true, and_true]
  exact and_congr (reads_uint _ hversion hversion') (and_congr (reads_asStr hroot hroot')
    (reads_map (reads_flakeLockNode o) hnodes hnodes'))

end Structs

/-! ## What is digested -/

section ToDoc

variable {α : Type} {f : α → Doc Number}

theorem uintDoc_injective {bound : Nat} (hbound : bound ≤ 2 ^ 64) : Function.Injective (uintDoc hbound) := by
  intro n n' h
  have hnumber := Doc.num.inj h
  rw [Number.int.injEq, Int.natCast_inj] at hnumber
  exact Fin.ext hnumber

theorem optionDoc_injective (hf : Function.Injective f) (hnull : ∀ a, f a ≠ .null) :
    Function.Injective (optionDoc f) := by
  intro a a' h
  cases a with
  | none =>
      cases a' with
      | none => rfl
      | some a' => exact absurd h.symm (hnull a')
  | some a =>
      cases a' with
      | none => exact absurd h (hnull a)
      | some a' => exact congrArg some (hf h)

theorem mem_mapMembers {m : Finmap fun _ : String => α} {k : String} {v : Doc Number} :
    (k, v) ∈ mapMembers f m ↔ ∃ a, m.lookup k = some a ∧ f a = v := by
  rw [mapMembers, List.mem_filterMap]
  constructor
  · rintro ⟨k', _, h⟩
    rcases Option.map_eq_some_iff.1 h with ⟨a, ha, heq⟩
    obtain ⟨rfl, rfl⟩ := Prod.mk.inj heq
    exact ⟨a, ha, rfl⟩
  · rintro ⟨a, ha, rfl⟩
    have hkey : k ∈ (Iteration.sorted String).list m.keys := by
      rw [(Iteration.sorted String).mem_list, Finmap.mem_keys]
      exact Finmap.mem_of_lookup_eq_some ha
    exact ⟨k, hkey, by rw [ha]; rfl⟩

/-- A map can be read back when its values can. -/
theorem mapMembers_inj {P : α → Prop} (hf : ∀ a b, P a → P b → f a = f b → a = b)
    {m m' : Finmap fun _ : String => α} (hm : ∀ k a, m.lookup k = some a → P a)
    (hm' : ∀ k a, m'.lookup k = some a → P a) (h : mapMembers f m = mapMembers f m') : m = m' := by
  have hle : ∀ {m m' : Finmap fun _ : String => α}, (∀ k a, m.lookup k = some a → P a) →
      (∀ k a, m'.lookup k = some a → P a) → mapMembers f m = mapMembers f m' →
      ∀ k a, m.lookup k = some a → m'.lookup k = some a := by
    intro m m' hm hm' h k a ha
    have hmem : (k, f a) ∈ mapMembers f m' := h ▸ mem_mapMembers.2 ⟨a, ha, rfl⟩
    rcases mem_mapMembers.1 hmem with ⟨b, hb, heq⟩
    rw [hb, hf b a (hm' k b hb) (hm k a ha) heq]
  exact Finmap.ext_lookup fun k => Option.ext fun a => ⟨hle hm hm' h k a, hle hm' hm h.symm k a⟩

theorem LockedRef.toDoc_injective : Function.Injective LockedRef.toDoc := by
  have htext : Function.Injective (optionDoc Doc.str : Option String → Doc Number) :=
    optionDoc_injective (fun _ _ => Doc.str.inj) fun _ h => by cases h
  have htime : Function.Injective (optionDoc (uintDoc (Nat.le_refl (2 ^ 64)))) :=
    optionDoc_injective (uintDoc_injective _) fun _ h => by cases h
  intro r r' h
  simp only [LockedRef.toDoc, Doc.obj.injEq, List.cons.injEq, Prod.mk.injEq, true_and, and_true] at h
  rcases h with ⟨howner, hrepo, hrev, hrefType, hnarHash, hlastModified⟩
  exact LockedRef.ext (htext howner) (htext hrepo) (htext hrev) (htext hrefType) (htext hnarHash)
    (htime hlastModified)

/-- A node as it is read: an `original` that is there is not null. -/
def FlakeLockNode.IsRead (n : FlakeLockNode) : Prop :=
  n.original ≠ some .null

theorem FlakeLockNode.toDoc_inj {n n' : FlakeLockNode} (hn : n.IsRead) (hn' : n'.IsRead)
    (h : n.toDoc = n'.toDoc) : n = n' := by
  -- Every field is written, also one that is not there, so they can be compared one by one.
  have hinputs : Function.Injective
      (optionDoc fun m : Finmap fun _ : String => Doc Number => .obj (mapMembers id m)) := by
    refine optionDoc_injective (fun m m' h => ?_) fun _ h => by cases h
    exact mapMembers_inj (P := fun _ => True) (fun _ _ _ _ h => h) (fun _ _ _ => trivial) (fun _ _ _ => trivial)
      (Doc.obj.inj h)
  have hlocked : Function.Injective (optionDoc LockedRef.toDoc) :=
    optionDoc_injective LockedRef.toDoc_injective fun _ h => by cases h
  have horiginal : ∀ {v v' : Option (Doc Number)}, v ≠ some .null → v' ≠ some .null →
      optionDoc id v = optionDoc id v' → v = v' := by
    intro v v' hv hv' h
    cases v with
    | none =>
        cases v' with
        | none => rfl
        | some v' => exact absurd (congrArg some h.symm) hv'
    | some v =>
        cases v' with
        | none => exact absurd (congrArg some h) hv
        | some v' => exact congrArg some h
  simp only [FlakeLockNode.toDoc, Doc.obj.injEq, List.cons.injEq, Prod.mk.injEq, true_and, and_true] at h
  exact FlakeLockNode.ext (hinputs h.1) (hlocked h.2.1) (horiginal hn hn' h.2.2)

theorem FlakeLocks.toDoc_inj {l l' : FlakeLocks} (hl : ∀ k n, l.nodes.lookup k = some n → n.IsRead)
    (hl' : ∀ k n, l'.nodes.lookup k = some n → n.IsRead) (h : l.toDoc = l'.toDoc) : l = l' := by
  simp only [FlakeLocks.toDoc, Doc.obj.injEq, List.cons.injEq, Prod.mk.injEq, true_and, and_true, Doc.str.injEq] at h
  exact FlakeLocks.ext (uintDoc_injective _ h.1) h.2.1
    (mapMembers_inj (fun _ _ => FlakeLockNode.toDoc_inj) hl hl' h.2.2)

theorem FlakeLockNode.isRead_of_ofDoc? {o : MapOrder} {d : Doc Number} {n : FlakeLockNode}
    (h : FlakeLockNode.ofDoc? o d = some n) : n.IsRead := by
  have horiginal := (FlakeLockNode.ofDoc?_eq_some h).2.2.2
  intro hnull
  rw [hnull, option?] at horiginal
  split_ifs at horiginal with hfield
  · exact absurd (Option.some.inj horiginal).symm (Option.some_ne_none _)
  · have hvalue : valueOf o (fieldOf nodeNames d "original") = .null :=
      Option.some.inj (Option.some.inj horiginal)
    -- A value that is not null is not held as null.
    refine hfield (Doc.isNull_iff.2 (lastWins_eq_null_iff.1 ?_))
    cases o with
    | sorted =>
        unfold valueOf at hvalue
        cases hlast : Doc.lastWins (fieldOf nodeNames d "original") with
        | null => rfl
        | bool | num | str | arr | obj =>
            rw [hlast] at hvalue
            cases hvalue
    | insertion => exact hvalue

theorem FlakeLocks.isRead_of_ofDoc? {o : MapOrder} {d : Doc Number} {l : FlakeLocks}
    (h : FlakeLocks.ofDoc? o d = some l) : ∀ k n, l.nodes.lookup k = some n → n.IsRead := by
  have hnodes := (FlakeLocks.ofDoc?_eq_some h).2.2.2
  intro k n hn
  cases hfield : fieldOf locksNames d "nodes" with
  | obj ms =>
      rw [hfield] at hnodes
      rcases map?_cases hnodes k with ⟨_, hnone⟩ | ⟨_, a, ha, hsome⟩
      · exact absurd (hnone.symm.trans hn) (Option.some_ne_none _).symm
      · obtain rfl := Option.some.inj (hsome.symm.trans hn)
        exact FlakeLockNode.isRead_of_ofDoc? ha
  | null | bool | num | str | arr =>
      rw [hfield] at hnodes
      cases hnodes

end ToDoc

/-- Lock files of one hash are those that are read alike. -/
theorem hashFlakeLock_eq_iff {fmt : F64 → Bytes} {sha256Hex : Bytes → String} (hfmt : FloatText fmt)
    (hsha : Function.Injective sha256Hex) (read : Bytes → Option (Doc Number)) (o : MapOrder)
    {content content' : Bytes} {d d' : Doc Number} {hash hash' : String} (hread : read content = some d)
    (hread' : read content' = some d') (hhash : hashFlakeLock fmt sha256Hex read o content = some hash)
    (hhash' : hashFlakeLock fmt sha256Hex read o content' = some hash') :
    hash = hash' ↔ KeptLocks o d d' := by
  rw [hashFlakeLock, hread, Option.bind_eq_bind, Option.bind_some] at hhash
  rw [hashFlakeLock, hread', Option.bind_eq_bind, Option.bind_some] at hhash'
  -- The digest is injective, the text is, what is written is, and reading is by `KeptLocks`.
  rcases Option.bind_eq_some_iff.1 hhash with ⟨l, hl, hhash⟩
  rcases Option.bind_eq_some_iff.1 hhash' with ⟨l', hl', hhash'⟩
  cases hhash
  cases hhash'
  rw [hsha.eq_iff, (Doc.render_injective hfmt.numberText).eq_iff, ← reads_flakeLocks o hl hl']
  constructor
  · exact FlakeLocks.toDoc_inj (FlakeLocks.isRead_of_ofDoc? hl) (FlakeLocks.isRead_of_ofDoc? hl')
  · intro heq
    rw [heq]

/-! ## Which lock files are told apart -/

section Same

variable {d d' : Doc Number}

/-- What holds of all members holds of the fields. -/
theorem fieldsSame_of_structSame {names : List String} {R R' : String → Doc Number → Doc Number → Prop}
    (hR : ∀ name ∈ names, ∀ v v', R name v v' → R' name v v') (h : StructSame names R d d') :
    FieldsSame names R' d d' := by
  cases d with
  | obj ms =>
      cases d' with
      | obj ms' => exact fun name hname => hR name hname _ _ (h name)
      | arr ys => exact absurd h (by simp [StructSame, Doc.SameLast, Doc.lastWins, Doc.Same])
      | null | bool | num | str => exact h
  | arr xs =>
      cases d' with
      | arr ys => exact fun name hname => hR name hname _ _ (h name hname)
      | obj ms' => exact absurd h (by simp [StructSame, Doc.SameLast, Doc.lastWins, Doc.Same])
      | null | bool | num | str => exact h
  | null | bool | num | str => cases d' <;> exact h

theorem mapSame_mono {R R' : Doc Number → Doc Number → Prop} (hR : ∀ v v', R v v' → R' v v')
    (h : MapSame R d d') : MapSame R' d d' := by
  cases d with
  | obj ms =>
      cases d' with
      | obj ms' => exact fun key => ⟨(h key).1, fun hkey => hR _ _ ((h key).2 hkey)⟩
      | null | bool | num | str | arr => exact h
  | null | bool | num | str | arr => cases d' <;> exact h

theorem mapSame_of_sameLast (h : Doc.SameLast d d') : MapSame Doc.SameLast d d' := by
  cases d with
  | obj ms =>
      cases d' with
      | obj ms' => exact fun key => ⟨(h.obj key).1, fun _ => (h.obj key).2⟩
      | null | bool | num | str | arr => exact h
  | null | bool | num | str | arr => cases d' <;> exact h

/-- Lock files that are the same are read alike by a build that sorts the members of values. -/
theorem keptLocks_of_sameLocks (h : SameLocks d d') : KeptLocks .sorted d d' := by
  refine fieldsSame_of_structSame ?_ h
  intro name _ v v' hv
  -- Only under `nodes`, and there under `inputs` and `locked`, the two relations differ.
  by_cases hnodes : name = "nodes"
  · rw [if_pos hnodes] at hv ⊢
    refine mapSame_mono ?_ hv
    intro n n' hn
    refine fieldsSame_of_structSame ?_ hn
    intro name hname v v' hv
    by_cases hinputs : name = "inputs"
    · have hlocked : name ≠ "locked" := by
        rw [hinputs]
        decide
      rw [if_neg hlocked] at hv
      rw [if_pos hinputs]
      exact mapSame_of_sameLast hv
    · rw [if_neg hinputs]
      by_cases hlocked : name = "locked"
      · rw [if_pos hlocked] at hv ⊢
        exact fieldsSame_of_structSame (fun _ _ _ _ hv => hv) hv
      · rw [if_neg hlocked] at hv ⊢
        exact hv
  · rw [if_neg hnodes] at hv ⊢
    exact hv

end Same

/-- Lock files are told apart as they should be, but for those that differ only in members the structs do not name,
and, where members of values keep their order, those that differ only in that order. -/
theorem hashFlakeLock_covers_iff {fmt : F64 → Bytes} {sha256Hex : Bytes → String} (hfmt : FloatText fmt)
    (hsha : Function.Injective sha256Hex) (read : Bytes → Option (Doc Number)) (o : MapOrder)
    {content content' : Bytes} {d d' : Doc Number} {hash hash' : String} (hread : read content = some d)
    (hread' : read content' = some d') (hhash : hashFlakeLock fmt sha256Hex read o content = some hash)
    (hhash' : hashFlakeLock fmt sha256Hex read o content' = some hash') :
    (hash = hash' ↔ SameLocks d d') ↔
      (SameLocks d d' ∧ KeptLocks o d d') ∨ (¬ SameLocks d d' ∧ ¬ KeptLocks o d d') := by
  rw [hashFlakeLock_eq_iff hfmt hsha read o hread hread' hhash hhash']
  tauto

/-- Reformatting, reordering members and writing `null` do not show where members of values are sorted. -/
theorem hashFlakeLock_eq_of_sameLocks {fmt : F64 → Bytes} {sha256Hex : Bytes → String} (hfmt : FloatText fmt)
    (hsha : Function.Injective sha256Hex) (read : Bytes → Option (Doc Number))
    {content content' : Bytes} {d d' : Doc Number} {hash hash' : String} (hread : read content = some d)
    (hread' : read content' = some d') (hhash : hashFlakeLock fmt sha256Hex read .sorted content = some hash)
    (hhash' : hashFlakeLock fmt sha256Hex read .sorted content' = some hash') (h : SameLocks d d') : hash = hash' :=
  (hashFlakeLock_eq_iff hfmt hsha read .sorted hread hread' hhash hhash').2 (keptLocks_of_sameLocks h)

/-! ## Two lock files with one hash -/

/-- The input comes from a git repository at the URL. -/
def lockFile (url : String) : Doc Number :=
  .obj [("version", .num (.int 7 (by decide))), ("root", .str "root"),
    ("nodes", .obj [("root", .obj [("inputs", .obj [("src", .str "src")])]),
      ("src", .obj [("locked", .obj [("type", .str "git"), ("url", .str url)])])])]

/-- SHA-256 on what is digested of these lock files. -/
def lockSha256Hex : Bytes → String :=
  tableDigest [([
    123, 34, 118, 101, 114, 115, 105, 111, 110, 34, 58, 55, 44, 34, 114, 111, 111, 116, 34, 58, 34, 114, 111,
    111, 116, 34, 44, 34, 110, 111, 100, 101, 115, 34, 58, 123, 34, 114, 111, 111, 116, 34, 58, 123, 34, 105,
    110, 112, 117, 116, 115, 34, 58, 123, 34, 115, 114, 99, 34, 58, 34, 115, 114, 99, 34, 125, 44, 34, 108,
    111, 99, 107, 101, 100, 34, 58, 110, 117, 108, 108, 44, 34, 111, 114, 105, 103, 105, 110, 97, 108, 34, 58,
    110, 117, 108, 108, 125, 44, 34, 115, 114, 99, 34, 58, 123, 34, 105, 110, 112, 117, 116, 115, 34, 58, 110,
    117, 108, 108, 44, 34, 108, 111, 99, 107, 101, 100, 34, 58, 123, 34, 111, 119, 110, 101, 114, 34, 58, 110,
    117, 108, 108, 44, 34, 114, 101, 112, 111, 34, 58, 110, 117, 108, 108, 44, 34, 114, 101, 118, 34, 58, 110,
    117, 108, 108, 44, 34, 116, 121, 112, 101, 34, 58, 34, 103, 105, 116, 34, 44, 34, 110, 97, 114, 72, 97,
    115, 104, 34, 58, 110, 117, 108, 108, 44, 34, 108, 97, 115, 116, 77, 111, 100, 105, 102, 105, 101, 100, 34,
    58, 110, 117, 108, 108, 125, 44, 34, 111, 114, 105, 103, 105, 110, 97, 108, 34, 58, 110, 117, 108, 108,
    125, 125, 125],
    "131c136a44aa2484706d9fdab91cedb72735c1bbd82966dfc38d106a92f2b8a0")]

theorem lockSha256Hex_injective : Function.Injective lockSha256Hex :=
  tableDigest_injective (by decide +kernel) (by decide +kernel)

def lockText (url : String) : Bytes :=
  (lockFile url).render (numberText Domain.sampleText)

/-- Reads the two texts. -/
def readLockFiles (content : Bytes) : Option (Doc Number) :=
  (["a", "b"].find? fun url => lockText url = content).map lockFile

theorem hashFlakeLock_a :
    hashFlakeLock Domain.sampleText lockSha256Hex readLockFiles .insertion (lockText "a") =
      some "131c136a44aa2484706d9fdab91cedb72735c1bbd82966dfc38d106a92f2b8a0" := by
  decide +kernel

theorem hashFlakeLock_b :
    hashFlakeLock Domain.sampleText lockSha256Hex readLockFiles .insertion (lockText "b") =
      some "131c136a44aa2484706d9fdab91cedb72735c1bbd82966dfc38d106a92f2b8a0" := by
  decide +kernel

theorem readLockFiles_a : readLockFiles (lockText "a") = some (lockFile "a") := by
  have hfind : (["a", "b"].find? fun url => lockText url = lockText "a") = some "a" := by decide +kernel
  rw [readLockFiles, hfind, Option.map_some]

theorem readLockFiles_b : readLockFiles (lockText "b") = some (lockFile "b") := by
  have hfind : (["a", "b"].find? fun url => lockText url = lockText "b") = some "b" := by decide +kernel
  rw [readLockFiles, hfind, Option.map_some]

/-- The URLs differ. -/
theorem not_sameLocks_urls : ¬ SameLocks (lockFile "a") (lockFile "b") := by
  intro h
  have hnodes := h "nodes"
  have hsource := (hnodes "src").2 (by decide)
  have hurl : "a" = "b" := (hsource "locked") "url"
  exact absurd hurl (by decide)

/-- What the structs name is the same. -/
theorem keptLocks_urls : KeptLocks .insertion (lockFile "a") (lockFile "b") := by
  by_contra hkept
  have h := hashFlakeLock_covers_iff Domain.sampleText_floatText lockSha256Hex_injective readLockFiles .insertion
    readLockFiles_a readLockFiles_b hashFlakeLock_a hashFlakeLock_b
  exact not_sameLocks_urls ((h.2 (Or.inr ⟨not_sameLocks_urls, hkept⟩)).1 rfl)

/-- An input that is fetched from elsewhere is not noticed. -/
theorem hashFlakeLock_urls_collide :
    Function.Injective lockSha256Hex ∧
      readLockFiles (lockText "a") = some (lockFile "a") ∧ readLockFiles (lockText "b") = some (lockFile "b") ∧
      hashFlakeLock Domain.sampleText lockSha256Hex readLockFiles .insertion (lockText "a") =
        hashFlakeLock Domain.sampleText lockSha256Hex readLockFiles .insertion (lockText "b") ∧
      (hashFlakeLock Domain.sampleText lockSha256Hex readLockFiles .insertion (lockText "a")).isSome = true ∧
      ¬ SameLocks (lockFile "a") (lockFile "b") := by
  refine ⟨lockSha256Hex_injective, readLockFiles_a, readLockFiles_b, ?_, ?_, not_sameLocks_urls⟩
  · rw [hashFlakeLock_a, hashFlakeLock_b]
  · rw [hashFlakeLock_a, Option.isSome_some]

end NixEnv
end Aivcs
