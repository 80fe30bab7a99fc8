import Aivcs.Lib.Bytes
import Mathlib.Data.List.Basic

/-!
# RelPath — path texts and the places they name

A path text names a place below a directory: its components are what stands between slashes, empty
ones lead nowhere, and `resolve` follows the others.  Different texts may name one place.

`tidied` brings a text to the form in which components are ended by exactly one slash.  On tidied texts
"inside" is "starts with" (`tidied_prefix_iff`).
-/

namespace Aivcs
namespace Lib
namespace RelPath

/-! ## Components -/

/-- What stands between the slashes of a text, empty pieces left out. -/
def pieces (cs : List Char) : List (List Char) :=
  (cs.splitOn '/').filter fun c => c ≠ []

/-- Follow components from a directory below the root; going above the root leads nowhere. -/
def resolveFrom : List String → List String → Option (List String)
  | done, [] => some done
  | done, c :: rest =>
      if c = "" ∨ c = "." then
        resolveFrom done rest
      else if c = ".." then
        if done = [] then none else resolveFrom done.dropLast rest
      else
        resolveFrom (done ++ [c]) rest

/-- The place a path text names below the root, if it stays there. -/
def resolve (path : String) : Option (List String) :=
  if path.toList.head? = some '/' then
    none
  else
    resolveFrom [] ((path.toList.splitOn '/').map String.ofList)

/-- Without `.` and `..` a path leads through its non-empty components. -/
theorem resolveFrom_eq {cs : List String} (h : ∀ c ∈ cs, c ≠ "." ∧ c ≠ "..") (done : List String) :
    resolveFrom done cs = some (done ++ cs.filter fun c => c ≠ "") := by
  induction cs generalizing done with
  | nil =>
      simp [resolveFrom]
  | cons c cs ih =>
      have hc := h c (by simp)
      have hcs : ∀ c ∈ cs, c ≠ "." ∧ c ≠ ".." := fun d hd => h d (by simp [hd])
      unfold resolveFrom
      by_cases hempty : c = ""
      · rw [if_pos (Or.inl hempty), ih hcs]
        simp [hempty]
      · rw [if_neg (by simp [hempty, hc.1]), if_neg hc.2, ih hcs]
        simp [hempty]

theorem resolve_eq {path : String} (hhead : path.toList.head? ≠ some '/')
    (h : ∀ c ∈ path.toList.splitOn '/', c ≠ ['.'] ∧ c ≠ ['.', '.']) :
    resolve path = some ((pieces path.toList).map String.ofList) := by
  have hdots : ∀ c ∈ (path.toList.splitOn '/').map String.ofList, c ≠ "." ∧ c ≠ ".." := by
    intro c hc
    rcases List.mem_map.1 hc with ⟨d, hd, rfl⟩
    refine ⟨fun heq => (h d hd).1 ?_, fun heq => (h d hd).2 ?_⟩
    · exact String.ofList_injective heq
    · exact String.ofList_injective heq
  rw [resolve, if_neg hhead, resolveFrom_eq hdots, List.nil_append, pieces, List.filter_map]
  congr 2
  refine List.filter_congr ?_
  intro c _
  have hiff : String.ofList c = "" ↔ c = [] :=
    ⟨fun heq => String.ofList_injective heq, fun heq => heq ▸ rfl⟩
  simp [hiff]

/-! ## Tidied texts -/

/-- Keep only the last slash of each run of slashes. -/
def squeeze : List Char → List Char
  | [] => []
  | c :: rest =>
      if c = '/' ∧ rest.head? = some '/' then squeeze rest else c :: squeeze rest

/-- A path text with every component ended by one slash. -/
def tidied (path : String) : List Char :=
  squeeze (path.toList ++ ['/'])

/-- Components, each ended by a slash. -/
def ended (cs : List (List Char)) : List Char :=
  cs.flatMap fun c => c ++ ['/']

/-- The text starts a new component: it is at its end, or a slash follows. -/
def AtBreak (cs : List Char) : Prop :=
  cs = [] ∨ cs.head? = some '/'

theorem head?_append_slash (cs : List Char) : (cs ++ ['/']).head? = some '/' ↔ AtBreak cs := by
  cases cs with
  | nil =>
      simp [AtBreak]
  | cons c cs =>
      simp [AtBreak]

theorem squeeze_cons_slash (cs : List Char) :
    squeeze ('/' :: (cs ++ ['/'])) =
      if (cs ++ ['/']).head? = some '/' then squeeze (cs ++ ['/'])
      else '/' :: squeeze (cs ++ ['/']) := by
  simp [squeeze]

theorem squeeze_cons_of_ne {c : Char} (hc : c ≠ '/') (cs : List Char) :
    squeeze (c :: cs) = c :: squeeze cs := by
  simp [squeeze, hc]

theorem pieces_cons_slash (cs : List Char) : pieces ('/' :: cs) = pieces cs := by
  simp [pieces, List.splitOn_cons_eq_if_modifyHead]

/-- A character at a break is a component of its own. -/
theorem pieces_cons_of_atBreak {c : Char} (hc : c ≠ '/') {cs : List Char} (h : AtBreak cs) :
    pieces (c :: cs) = [c] :: pieces cs := by
  rcases h with rfl | h
  · simp [pieces, List.splitOn_cons_eq_if_modifyHead, hc]
  · rcases List.head?_eq_some_iff.1 h with ⟨rest, rfl⟩
    simp [pieces, List.splitOn_cons_eq_if_modifyHead, hc]

/-- Elsewhere it continues the first component. -/
theorem pieces_cons_of_not_atBreak {c : Char} (hc : c ≠ '/') {cs : List Char} (h : ¬ AtBreak cs) :
    ∃ first rest, pieces cs = first :: rest ∧ pieces (c :: cs) = (c :: first) :: rest := by
  cases cs with
  | nil =>
      exact absurd (Or.inl rfl) h
  | cons d cs =>
      have hd : d ≠ '/' := by
        rintro rfl
        exact h (Or.inr rfl)
      obtain ⟨first, rest, hsplit⟩ := List.exists_cons_of_ne_nil (List.splitOn_ne_nil '/' cs)
      refine ⟨d :: first, rest.filter fun c => c ≠ [], ?_, ?_⟩
      · simp [pieces, List.splitOn_cons_eq_if_modifyHead, hd, hsplit]
      · simp [pieces, List.splitOn_cons_eq_if_modifyHead, hc, hd, hsplit]

/-- A tidied text is its components, each ended by a slash; before the first there may be one. -/
theorem squeeze_eq (cs : List Char) :
    (AtBreak cs → squeeze (cs ++ ['/']) = '/' :: ended (pieces cs)) ∧
      (¬ AtBreak cs → squeeze (cs ++ ['/']) = ended (pieces cs)) := by
  induction cs with
  | nil =>
      refine ⟨fun _ => by simp [squeeze, pieces, ended], fun h => absurd (Or.inl rfl) h⟩
  | cons c cs ih =>
      by_cases hc : c = '/'
      · subst hc
        refine ⟨fun _ => ?_, fun h => absurd (Or.inr rfl) h⟩
        rw [List.cons_append, squeeze_cons_slash, pieces_cons_slash]
        by_cases hbreak : AtBreak cs
        · rw [if_pos ((head?_append_slash cs).2 hbreak), ih.1 hbreak]
        · rw [if_neg (fun h => hbreak ((head?_append_slash cs).1 h)), ih.2 hbreak]
      · refine ⟨fun h => ?_, fun _ => ?_⟩
        · rcases h with h | h
          · cases h
          · exact absurd (Option.some.inj h) hc
        · rw [List.cons_append, squeeze_cons_of_ne hc]
          by_cases hbreak : AtBreak cs
          · rw [ih.1 hbreak, pieces_cons_of_atBreak hc hbreak]
            simp [ended]
          · rcases pieces_cons_of_not_atBreak hc hbreak with ⟨first, rest, hpieces, hcons⟩
            rw [ih.2 hbreak, hpieces, hcons]
            simp [ended]

theorem pieces_ne_nil {cs : List Char} (h : ¬ AtBreak cs) : pieces cs ≠ [] := by
  cases cs with
  | nil =>
      exact absurd (Or.inl rfl) h
  | cons c cs =>
      have hc : c ≠ '/' := by
        rintro rfl
        exact h (Or.inr rfl)
      by_cases hbreak : AtBreak cs
      · rw [pieces_cons_of_atBreak hc hbreak]
        simp
      · rcases pieces_cons_of_not_atBreak hc hbreak with ⟨first, rest, -, hcons⟩
        rw [hcons]
        simp

/-! ## Inside -/

theorem slash_notMem_pieces {cs c : List Char} (h : c ∈ pieces cs) : '/' ∉ c :=
  not_mem_of_mem_splitOn (List.mem_of_mem_filter h)

/-- The first slash ends the first component, whatever follows. -/
theorem append_slash_prefix {c d xs ys : List Char} (hc : '/' ∉ c) (hd : '/' ∉ d)
    (h : c ++ '/' :: xs <+: d ++ '/' :: ys) : c = d ∧ xs <+: ys := by
  induction c generalizing d with
  | nil =>
      cases d with
      | nil =>
          exact ⟨rfl, (List.cons_prefix_cons.1 h).2⟩
      | cons b d =>
          have hb : '/' = b := (List.cons_prefix_cons.1 h).1
          exact absurd (hb ▸ List.mem_cons_self) hd
  | cons a c ih =>
      cases d with
      | nil =>
          have ha : a = '/' := (List.cons_prefix_cons.1 h).1
          exact absurd (ha ▸ List.mem_cons_self) hc
      | cons b d =>
          rcases List.cons_prefix_cons.1 h with ⟨rfl, htail⟩
          rcases ih (fun hm => hc (List.mem_cons_of_mem _ hm)) (fun hm => hd (List.mem_cons_of_mem _ hm))
            htail with ⟨rfl, hxs⟩
          exact ⟨rfl, hxs⟩

theorem ended_prefix_iff {cs ds : List (List Char)} (hcs : ∀ c ∈ cs, '/' ∉ c)
    (hds : ∀ d ∈ ds, '/' ∉ d) : ended cs <+: ended ds ↔ cs <+: ds := by
  constructor
  · intro h
    induction cs generalizing ds with
    | nil =>
        exact List.nil_prefix
    | cons c cs ih =>
        cases ds with
        | nil =>
            simp [ended] at h
        | cons d ds =>
            have hends : c ++ '/' :: ended cs <+: d ++ '/' :: ended ds := by simpa [ended] using h
            rcases append_slash_prefix (hcs c (by simp)) (hds d (by simp)) hends with ⟨rfl, hrest⟩
            refine List.cons_prefix_cons.2 ⟨rfl, ?_⟩
            exact ih (fun c hc => hcs c (by simp [hc])) (fun d hd => hds d (by simp [hd])) hrest
  · rintro ⟨rest, rfl⟩
    simp [ended]

/-- One place is inside another, or is it, exactly when its tidied text starts with the other's. -/
theorem tidied_prefix_iff {p q : String} (hp : ¬ AtBreak p.toList) (hq : ¬ AtBreak q.toList) :
    tidied p <+: tidied q ↔
      (pieces p.toList).map String.ofList <+: (pieces q.toList).map String.ofList := by
  rw [tidied, tidied, (squeeze_eq p.toList).2 hp, (squeeze_eq q.toList).2 hq,
    ended_prefix_iff (fun _ => slash_notMem_pieces) (fun _ => slash_notMem_pieces)]
  constructor
  · exact fun h => h.map _
  · rintro ⟨rest, hrest⟩
    rcases List.map_eq_append_iff.1 hrest.symm with ⟨l₁, l₂, hpieces, hl₁, -⟩
    have hinj : Function.Injective String.ofList := fun _ _ => String.ofList_injective
    rw [hpieces, List.map_injective_iff.2 hinj hl₁]
    exact List.prefix_append _ _

end RelPath
end Lib
end Aivcs
