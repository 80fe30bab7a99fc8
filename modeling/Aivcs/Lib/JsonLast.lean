import Aivcs.Lib.JsonNulls
import Mathlib.Data.Finmap

/-!
# JsonLast — objects that may repeat a member

A reader that puts the members of an object into a map keeps the last of those with one key.  `lastMember` reads
such a member, `null` if there is none, `lastWins` is the document with every repeated member kept once, and
`toFinmap` is the map of the members.
-/

namespace Aivcs
namespace Lib
namespace Doc

variable {N : Type}

/-- The last member with the key, or `null`. -/
def lastMember (ms : List (String × Doc N)) (k : String) : Doc N :=
  (ms.reverse.lookup k).getD .null

mutual

/-- The document in which a repeated member is there once, in the first place and with the last value. -/
def lastWins : Doc N → Doc N
  | .arr xs => .arr (lastWinsElems xs)
  | .obj ms => .obj (setMembers (lastWinsMembers ms) [])
  | .null => .null
  | .bool b => .bool b
  | .num n => .num n
  | .str s => .str s

def lastWinsElems : List (Doc N) → List (Doc N)
  | [] => []
  | x :: xs => lastWins x :: lastWinsElems xs

def lastWinsMembers : List (String × Doc N) → List (String × Doc N)
  | [] => []
  | (k, v) :: ms => (k, lastWins v) :: lastWinsMembers ms

end

/-- The same value, with every repeated member taken once. -/
def SameLast (d e : Doc N) : Prop :=
  Same Eq (lastWins d) (lastWins e)

section LastWins

theorem lastWinsElems_eq (xs : List (Doc N)) : lastWinsElems xs = xs.map lastWins := by
  induction xs with
  | nil => rfl
  | cons x xs ih => rw [lastWinsElems, ih, List.map_cons]

theorem lastWinsMembers_eq (ms : List (String × Doc N)) :
    lastWinsMembers ms = ms.map fun m => (m.1, lastWins m.2) := by
  induction ms with
  | nil => rfl
  | cons m ms ih => rw [lastWinsMembers, ih, List.map_cons]

theorem uniqueKeys_lastWins (d : Doc N) : UniqueKeys (lastWins d) := by
  induction d using induct with
  | null | bool | num | str => trivial
  | arr xs ih =>
      rw [lastWins, lastWinsElems_eq]
      refine uniqueKeys_arr.2 fun x hx => ?_
      rcases List.mem_map.1 hx with ⟨y, hy, rfl⟩
      exact ih y hy
  | obj ms ih =>
      rw [lastWins, lastWinsMembers_eq]
      refine uniqueKeys_setMembers ?_ (by simp)
      intro m hm
      rcases List.mem_map.1 hm with ⟨m', hm', rfl⟩
      exact ih m' hm'

/-- Of the members inserted under one key the last is found. -/
theorem lookup_setMembers_reverse (fields ms : List (String × Doc N)) (k : String) :
    (setMembers fields ms).lookup k = (fields.reverse.lookup k).or (ms.lookup k) := by
  induction fields generalizing ms with
  | nil => rfl
  | cons m fields ih =>
      have hrest : (setMembers (m :: fields) ms).lookup k =
          (fields.reverse.lookup k).or ((setMember m.1 m.2 ms).lookup k) := ih (setMember m.1 m.2 ms)
      rw [hrest, lookup_setMember, List.reverse_cons, List.lookup_append, lookup_cons]
      -- A later member hides the one that is inserted first.
      cases fields.reverse.lookup k with
      | some v => rfl
      | none =>
          by_cases hk : k = m.1
          · simp [hk]
          · simp [hk]

theorem lookup_map_snd (f : Doc N → Doc N) (ms : List (String × Doc N)) (k : String) :
    (ms.map fun m => (m.1, f m.2)).lookup k = (ms.lookup k).map f := by
  induction ms with
  | nil => rfl
  | cons m ms ih =>
      rw [List.map_cons, lookup_cons, lookup_cons, ih]
      by_cases hk : k = m.1
      · rw [if_pos hk, if_pos hk]
        rfl
      · rw [if_neg hk, if_neg hk]

/-- The members of the document with repeated ones once. -/
theorem lookup_lastWins (ms : List (String × Doc N)) (k : String) :
    (setMembers (lastWinsMembers ms) []).lookup k = (ms.reverse.lookup k).map lastWins := by
  rw [lookup_setMembers_reverse, lastWinsMembers_eq, ← List.map_reverse, lookup_map_snd]
  cases (ms.reverse.lookup k).map lastWins <;> rfl

theorem lookup_eq_none_iff_not_mem {α : Type} {ms : List (String × α)} {k : String} :
    ms.lookup k = none ↔ k ∉ ms.map Prod.fst := by
  rw [List.lookup_eq_none_iff]
  constructor
  · intro h hk
    rcases List.mem_map.1 hk with ⟨m, hm, rfl⟩
    simpa using h m hm
  · intro h m hm
    have hne : k ≠ m.1 := fun heq => h (heq ▸ List.mem_map_of_mem hm)
    simpa using hne

theorem lookup_reverse_eq_none_iff {α : Type} {ms : List (String × α)} {k : String} :
    ms.reverse.lookup k = none ↔ k ∉ ms.map Prod.fst := by
  rw [lookup_eq_none_iff_not_mem, List.map_reverse, List.mem_reverse]

theorem mem_keys_lastWins (ms : List (String × Doc N)) (k : String) :
    k ∈ (setMembers (lastWinsMembers ms) []).map Prod.fst ↔ k ∈ ms.map Prod.fst := by
  rw [← not_iff_not, ← lookup_eq_none_iff_not_mem, lookup_lastWins, Option.map_eq_none_iff,
    lookup_reverse_eq_none_iff]

theorem memberAt_lastWins (ms : List (String × Doc N)) (k : String) :
    memberAt (setMembers (lastWinsMembers ms) []) k = lastWins (lastMember ms k) := by
  rw [memberAt, lookup_lastWins, lastMember]
  cases ms.reverse.lookup k <;> rfl

/-- Objects that are the same have the same keys, and the same last members. -/
theorem SameLast.obj {ms ms' : List (String × Doc N)} (h : SameLast (.obj ms) (.obj ms')) (k : String) :
    (k ∈ ms.map Prod.fst ↔ k ∈ ms'.map Prod.fst) ∧ SameLast (lastMember ms k) (lastMember ms' k) := by
  rw [SameLast, lastWins, lastWins] at h
  constructor
  · rcases same_obj.1 h with ⟨hmembers, hback⟩
    have hkeys : k ∈ (setMembers (lastWinsMembers ms) []).map Prod.fst ↔
        k ∈ (setMembers (lastWinsMembers ms') []).map Prod.fst := by
      constructor
      · intro hk
        rcases List.mem_map.1 hk with ⟨m, hm, rfl⟩
        rcases hmembers m hm with ⟨v', hv', _⟩
        exact List.mem_map.2 ⟨_, hv', rfl⟩
      · exact hback k
    exact (mem_keys_lastWins ms k).symm.trans (hkeys.trans (mem_keys_lastWins ms' k))
  · have hkeys : ((setMembers (lastWinsMembers ms') []).map Prod.fst).Nodup := by
      have hunique := uniqueKeys_lastWins (.obj ms')
      rw [lastWins] at hunique
      exact (uniqueKeys_obj.1 hunique).1
    have hmember := h.memberAt hkeys k
    rwa [memberAt_lastWins, memberAt_lastWins] at hmember

end LastWins

/-! ## Maps of members -/

section Maps

variable {α : Type}

/-- The map into which the members are inserted one by one. -/
def toFinmap (ms : List (String × α)) : Finmap fun _ : String => α :=
  ms.foldl (fun m e => m.insert e.1 e.2) ∅

theorem lookup_toFinmap (ms : List (String × α)) (k : String) : (toFinmap ms).lookup k = ms.reverse.lookup k := by
  have hfold : ∀ m : Finmap fun _ : String => α,
      (ms.foldl (fun m e => m.insert e.1 e.2) m).lookup k = (ms.reverse.lookup k).or (m.lookup k) := by
    induction ms with
    | nil => exact fun _ => rfl
    | cons e ms ih =>
        rcases e with ⟨key, v⟩
        intro m
        rw [List.foldl_cons, ih, List.reverse_cons, List.lookup_append]
        cases ms.reverse.lookup k with
        | some v => rfl
        | none =>
            by_cases hk : k = key
            · subst hk
              simp
            · have hne : (k == key) = false := beq_eq_false_iff_ne.2 hk
              simp [List.lookup_cons, hne, Finmap.lookup_insert_of_ne m hk]
  rw [toFinmap, hfold, Finmap.lookup_empty, Option.or_none]

end Maps

end Doc
end Lib
end Aivcs
