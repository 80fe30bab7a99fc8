import Mathlib.Data.List.Infix
import Mathlib.Data.Nat.Find

/-!
# TextSearch — the first occurrence of a pattern

`List.dropInfix?` is `find`: it gives what comes before the first occurrence, and what after.  A text that
is made of parts is searched part by part.
-/

namespace Aivcs
namespace Lib

variable {α : Type} [DecidableEq α] {pat cs xs ys : List α} {c : α}

/-- The pieces of the text between the occurrences (`split`); the first argument bounds their number. -/
def splitText (pat : List α) : Nat → List α → List (List α)
  | 0, cs => [cs]
  | n + 1, cs =>
      match cs.dropInfix? pat with
      | none => [cs]
      | some (x, y) => x :: splitText pat n y

theorem dropInfix?_eq_none_iff : cs.dropInfix? pat = none ↔ ¬ pat <:+: cs := by
  constructor
  · rintro h ⟨x, y, hxy⟩
    -- Of all occurrences one is the first.
    have hex : ∃ n x y, x ++ pat ++ y = cs ∧ x.length = n := ⟨_, x, y, hxy, rfl⟩
    classical
    rcases Nat.find_spec hex with ⟨x', y', hcs, hlength⟩
    have hfirst : cs.dropInfix? pat = some (x', y') := by
      refine List.dropInfix?_eq_some_iff.2 ⟨⟨pat, hcs.symm, BEq.rfl⟩, fun x'' pat' y'' hcs' hpat => ?_⟩
      rw [eq_of_beq hpat] at hcs'
      exact hlength.trans_le (Nat.find_min' hex ⟨x'', y'', hcs'.symm, rfl⟩)
    rw [h] at hfirst
    cases hfirst
  · intro h
    refine Option.eq_none_iff_forall_ne_some.2 fun ⟨x, y⟩ hsome => ?_
    rcases (List.dropInfix?_eq_some_iff.1 hsome).1 with ⟨pat', hcs, hpat⟩
    rw [eq_of_beq hpat] at hcs
    exact h ⟨x, y, hcs.symm⟩

theorem dropInfix?_append_self (pat cs : List α) : (pat ++ cs).dropInfix? pat = some ([], cs) :=
  List.dropInfix?_eq_some_iff.2 ⟨⟨pat, rfl, BEq.rfl⟩, fun _ _ _ _ _ => Nat.zero_le _⟩

theorem dropInfix?_cons (h : ¬ pat <+: c :: cs) :
    (c :: cs).dropInfix? pat = (cs.dropInfix? pat).map fun p => (c :: p.1, p.2) := by
  cases hcs : cs.dropInfix? pat with
  | none =>
      refine dropInfix?_eq_none_iff.2 fun hinfix => ?_
      rcases List.infix_cons_iff.1 hinfix with hpre | hinfix
      · exact h hpre
      · exact dropInfix?_eq_none_iff.1 hcs hinfix
  | some p =>
      rcases List.dropInfix?_eq_some_iff.1 hcs with ⟨⟨pat', hsplit, hpat⟩, hfirst⟩
      refine List.dropInfix?_eq_some_iff.2 ⟨⟨pat', by rw [hsplit]; rfl, hpat⟩, fun x pat'' y hxy hpat'' => ?_⟩
      cases x with
      | nil =>
          rw [List.nil_append, eq_of_beq hpat''] at hxy
          exact absurd ⟨y, hxy.symm⟩ h
      | cons d x =>
          rw [List.cons_append, List.cons_append] at hxy
          exact Nat.succ_le_succ (hfirst x pat'' y (List.cons.inj hxy).2 hpat'')

/-- The search passes over what has not the first character of the pattern. -/
theorem dropInfix?_append (hc : c ∉ xs) (pat cs : List α) :
    (xs ++ cs).dropInfix? (c :: pat) = (cs.dropInfix? (c :: pat)).map fun p => (xs ++ p.1, p.2) := by
  induction xs with
  | nil =>
      simp
  | cons x xs ih =>
      rw [List.mem_cons, not_or] at hc
      have hnot : ¬ c :: pat <+: x :: (xs ++ cs) := fun h => hc.1 (List.cons_prefix_cons.1 h).1
      rw [List.cons_append, dropInfix?_cons hnot, ih hc.2, Option.map_map]
      rfl

/-! ## Splitting -/

theorem splitText_of_none (n : Nat) (h : ¬ pat <:+: cs) : splitText pat n cs = [cs] := by
  cases n with
  | zero => rfl
  | succ n => rw [splitText, dropInfix?_eq_none_iff.2 h]

theorem splitText_of_some (n : Nat) (h : cs.dropInfix? pat = some (xs, ys)) :
    splitText pat (n + 1) cs = xs :: splitText pat n ys := by
  rw [splitText, h]

/-- All of the text is its first piece only if the pattern is not in it. -/
theorem getD_head?_splitText_eq_self_iff (hpat : pat ≠ []) {n : Nat} (hn : cs.length ≤ n) :
    (splitText pat n cs).head?.getD [] = cs ↔ ¬ pat <:+: cs := by
  constructor
  · intro h hinfix
    cases n with
    | zero =>
        rw [List.length_eq_zero_iff.1 (Nat.le_zero.1 hn), List.infix_nil] at hinfix
        exact hpat hinfix
    | succ n =>
        cases hfind : cs.dropInfix? pat with
        | none =>
            exact dropInfix?_eq_none_iff.1 hfind hinfix
        | some p =>
            rcases (List.dropInfix?_eq_some_iff.1 hfind).1 with ⟨pat', hsplit, heq⟩
            rw [splitText_of_some n hfind, List.head?_cons, Option.getD_some] at h
            have hlength := congrArg List.length (hsplit.symm.trans h.symm)
            have hpos := List.length_pos_of_ne_nil hpat
            rw [eq_of_beq heq] at hlength
            simp only [List.length_append] at hlength
            omega
  · intro h
    rw [splitText_of_none n h]
    rfl

end Lib
end Aivcs
