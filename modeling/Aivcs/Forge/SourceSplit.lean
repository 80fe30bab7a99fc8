import Aivcs.Lib.Utf8Lossy
import Aivcs.Forge.SourceRoundTrip

/-!
# Forge.SourceSplit — which paths fit a USTAR header

A header takes a name of up to 100 bytes and in front of it, behind a slash that is not stored, a prefix of
up to 155, which makes 256 bytes.  `ustar_split` refuses everything longer than 255.

* `ustarExact_iff` — it finds a split whenever there is one, but for the paths of 256 bytes that have one.
-/

namespace Aivcs
namespace Forge

open Aivcs.Lib

/-- Both parts are there and fit their fields. -/
structure SplitsInto (path pre name : Bytes) : Prop where
  pre_ne_nil : pre ≠ []
  name_ne_nil : name ≠ []
  pre_length : pre.length ≤ 155
  name_length : name.length ≤ 100
  joined : path = pre ++ 47 :: name

/-- What is answered for a path is right, and sliced at the boundaries of characters. -/
structure UstarExact (path : String) : Prop where
  sound : ∀ pre name, ustarSplit (utf8 path) = some (pre, name) →
    name.length ≤ 100 ∧ pre.length ≤ 155 ∧
      ((pre = [] ∧ utf8 path = name) ∨ (pre ≠ [] ∧ name ≠ [] ∧ utf8 path = pre ++ 47 :: name))
  complete : ustarSplit (utf8 path) = none →
    100 < (utf8 path).length ∧ ∀ pre name, ¬ SplitsInto (utf8 path) pre name
  boundaries : ∀ pre name, ustarSplit (utf8 path) = some (pre, name) → pre ≠ [] →
    CharBoundary path pre.length ∧ CharBoundary path (pre.length + 1)

section Windows

variable {path pre name : Bytes}

/-- The two parts of a path that is split are both there. -/
theorem ustarSplit_cases (h : ustarSplit path = some (pre, name)) :
    (pre = [] ∧ path = name) ∨ (pre ≠ [] ∧ name ≠ [] ∧ path = pre ++ 47 :: name) := by
  rcases ustarSplit_sound h with ⟨hname, hpre, hjoin⟩
  by_cases hnil : pre = []
  · rw [if_pos hnil] at hjoin
    exact Or.inl ⟨hnil, hjoin.symm⟩
  · rw [if_neg hnil] at hjoin
    refine Or.inr ⟨hnil, ?_, hjoin.symm⟩
    rintro rfl
    -- Without a name the path would be short enough to be left whole, or end at the window's edge.
    unfold ustarSplit at h
    split_ifs at h with hshort hlong
    · exact hnil (Prod.mk.inj (Option.some.inj h)).1.symm
    · rcases Option.map_eq_some_iff.1 h with ⟨i, hi, hsplit⟩
      have hrange := List.mem_range'_1.1 (List.mem_of_find?_eq_some hi)
      have hlength := congrArg List.length (Prod.mk.inj hsplit).2
      rw [List.length_drop, List.length_nil] at hlength
      omega

/-- The window holds every slash that can be split at. -/
theorem ustarSplit_ne_none (h : SplitsInto path pre name) (hlength : path.length ≤ 255) :
    ustarSplit path ≠ none := by
  have hpre := List.length_pos_iff.2 h.pre_ne_nil
  have hname := List.length_pos_iff.2 h.name_ne_nil
  have hpath : path.length = pre.length + (name.length + 1) := by
    rw [h.joined, List.length_append, List.length_cons]
  have hpreLength := h.pre_length
  have hnameLength := h.name_length
  unfold ustarSplit
  split_ifs with hshort hlong
  · exact Option.some_ne_none _
  · omega
  · -- The slash behind `pre` lies between the two bounds of the search.
    rw [ne_eq, Option.map_eq_none_iff, List.find?_eq_none]
    intro hnone
    refine hnone pre.length (List.mem_range'_1.2 ⟨by omega, by omega⟩) (decide_eq_true ?_)
    rw [h.joined, List.getElem?_append_right (Nat.le_refl _), Nat.sub_self]
    rfl

/-- A longer path that splits has 256 bytes, and a slash after the longest prefix. -/
theorem exists_splitsInto_iff (hlength : 255 < path.length) :
    (∃ pre name, SplitsInto path pre name) ↔ path.length = 256 ∧ path[155]? = some 47 := by
  constructor
  · rintro ⟨pre, name, h⟩
    have hpath : path.length = pre.length + (name.length + 1) := by
      rw [h.joined, List.length_append, List.length_cons]
    have hpreLength := h.pre_length
    have hnameLength := h.name_length
    -- Both parts have to be as long as they may.
    have hpre : pre.length = 155 := by omega
    refine ⟨by omega, ?_⟩
    rw [h.joined, ← hpre, List.getElem?_append_right (Nat.le_refl _), Nat.sub_self]
    rfl
  · rintro ⟨hlength, hslash⟩
    rcases List.getElem?_eq_some_iff.1 hslash with ⟨hlt, hget⟩
    have hpre : (path.take 155).length = 155 := by
      rw [List.length_take]
      omega
    have hname : (path.drop 156).length = 100 := by
      rw [List.length_drop]
      omega
    refine ⟨path.take 155, path.drop 156, ?_, ?_, Nat.le_of_eq hpre, Nat.le_of_eq hname, ?_⟩
    · exact List.ne_nil_of_length_pos (by omega)
    · exact List.ne_nil_of_length_pos (by omega)
    · conv_lhs => rw [← List.take_append_drop 155 path, List.drop_eq_getElem_cons hlt, hget]

theorem ustarSplit_eq_none_of_long (h : 255 < path.length) : ustarSplit path = none := by
  unfold ustarSplit
  rw [if_neg (by omega), if_pos h]

end Windows

/-- A text is cut at the boundaries of characters, on both sides of a slash. -/
theorem charBoundary_of_slash {path : String} {pre name : Bytes} (h : utf8 path = pre ++ 47 :: name) :
    CharBoundary path pre.length ∧ CharBoundary path (pre.length + 1) := by
  rw [← String.ofList_toList (s := path)] at h
  rcases exists_of_utf8_append (by decide) h with ⟨front, back, rfl, rfl, c, hc, hpath⟩
  have htext (s : String) (hs : s.toList = path.toList) : path = s := String.toList_inj.1 hs.symm
  refine ⟨⟨String.ofList front, String.ofList (c :: back), htext _ ?_, rfl⟩,
    ⟨String.ofList (front ++ [c]), String.ofList back, htext _ ?_, ?_⟩⟩
  · simp [hpath]
  · simp [hpath]
  · rw [utf8_ofList, List.flatMap_append, List.flatMap_singleton, hc, List.length_append, ← utf8_ofList]
    rfl

/-- A path is answered right unless it has 256 bytes and a slash after 155 of them: it would fit. -/
theorem ustarExact_iff (path : String) :
    UstarExact path ↔ ¬ ((utf8 path).length = 256 ∧ (utf8 path)[155]? = some 47) := by
  constructor
  · rintro h ⟨hlength, hslash⟩
    have hlong : 255 < (utf8 path).length := by omega
    rcases (exists_splitsInto_iff hlong).2 ⟨hlength, hslash⟩ with ⟨pre, name, hsplits⟩
    exact (h.complete (ustarSplit_eq_none_of_long hlong)).2 pre name hsplits
  · intro h
    refine ⟨?_, ?_, ?_⟩
    · intro pre name hsplit
      rcases ustarSplit_sound hsplit with ⟨hname, hpre, _⟩
      exact ⟨hname, hpre, ustarSplit_cases hsplit⟩
    · intro hnone
      have hlong : 100 < (utf8 path).length := by
        by_contra hshort
        rw [ustarSplit, if_pos (Nat.le_of_not_lt hshort)] at hnone
        cases hnone
      refine ⟨hlong, fun pre name hsplits => ?_⟩
      by_cases hlength : (utf8 path).length ≤ 255
      · exact ustarSplit_ne_none hsplits hlength hnone
      · exact h ((exists_splitsInto_iff (Nat.lt_of_not_le hlength)).1 ⟨pre, name, hsplits⟩)
    · intro pre name hsplit hne
      rcases ustarSplit_cases hsplit with ⟨hnil, _⟩ | ⟨_, _, hjoin⟩
      · exact absurd hnil hne
      · exact charBoundary_of_slash hjoin

/-- A prefix and a name of these lengths. -/
def filledPath (n m : Nat) : String :=
  String.ofList (List.replicate n 'a' ++ '/' :: List.replicate m 'b')

theorem utf8_filledPath (n m : Nat) :
    utf8 (filledPath n m) = List.replicate n 97 ++ 47 :: List.replicate m 98 := by
  have ha : String.utf8EncodeChar 'a' = [97] := by decide
  have hb : String.utf8EncodeChar 'b' = [98] := by decide
  have hslash : String.utf8EncodeChar '/' = [47] := by decide
  calc utf8 (filledPath n m)
      = (List.replicate n 'a' ++ '/' :: List.replicate m 'b').flatMap String.utf8EncodeChar := utf8_ofList _
    _ = (List.replicate n [97]).flatten ++ ([47] ++ (List.replicate m [98]).flatten) := by
        rw [List.flatMap_append, List.flatMap_cons, List.flatMap_replicate, List.flatMap_replicate, ha, hb, hslash]
    _ = List.replicate n 97 ++ 47 :: List.replicate m 98 := by
        rw [List.flatten_replicate_singleton, List.flatten_replicate_singleton, List.singleton_append]

theorem splitsInto_filledPath {n m : Nat} (hn : 0 < n) (hm : 0 < m) (hpre : n ≤ 155) (hname : m ≤ 100) :
    SplitsInto (utf8 (filledPath n m)) (List.replicate n 97) (List.replicate m 98) where
  pre_ne_nil := List.ne_nil_of_length_pos (by rwa [List.length_replicate])
  name_ne_nil := List.ne_nil_of_length_pos (by rwa [List.length_replicate])
  pre_length := by rwa [List.length_replicate]
  name_length := by rwa [List.length_replicate]
  joined := utf8_filledPath n m

theorem length_utf8_filledPath (n m : Nat) : (utf8 (filledPath n m)).length = n + (m + 1) := by
  rw [utf8_filledPath, List.length_append, List.length_cons, List.length_replicate, List.length_replicate]

/-- A prefix and a name that fill their fields are refused. -/
theorem not_ustarExact_filledPath : ¬ UstarExact (filledPath 155 100) := by
  have hlong : 255 < (utf8 (filledPath 155 100)).length := by
    rw [length_utf8_filledPath]
    omega
  have hsplits := splitsInto_filledPath (n := 155) (m := 100)
    (by omega) (by omega) (Nat.le_refl 155) (Nat.le_refl 100)
  intro h
  exact (h.complete (ustarSplit_eq_none_of_long hlong)).2 _ _ hsplits

end Forge
end Aivcs
