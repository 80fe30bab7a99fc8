import Mathlib.Algebra.BigOperators.Group.Finset.Basic
import Aivcs.Lib.Digraph

/-!
# StackSearch — is a vertex reachable?

The search with a stack and a set of vertices seen: pop a vertex, stop if it is the target, skip it if it
was seen, and push its successors otherwise.  A vertex is pushed once for each edge into it that the search
follows, so the rounds are counted by edges and not by vertices.

* `search_spec` — the search finishes, on any finite graph, cyclic or not, and finds the target exactly
  when it is reachable from the start.
-/

namespace Aivcs
namespace Lib
namespace Digraph

open Relation

variable {V : Type}

/-- The top of the stack is the head of the list, so the last successor is popped first. -/
def search [DecidableEq V] (succ : V → List V) (target : V) : Nat → List V → Finset V → Option Bool
  | 0, _, _ => none
  | _ + 1, [], _ => some false
  | fuel + 1, node :: stack, seen =>
      if node = target then some true
      else if node ∈ seen then search succ target fuel stack seen
      else search succ target fuel ((succ node).reverse ++ stack) (insert node seen)

/-- What holds between two rounds of a search from `start` that has not met its target. -/
structure SearchInv (succ : V → List V) (start target : V) (stack : List V) (seen : Finset V) :
    Prop where
  stack_reachable : ∀ v ∈ stack, ReflTransGen (Succ succ) start v
  start_mem : start ∈ seen ∨ start ∈ stack
  target_notMem : target ∉ seen
  closed : ∀ v ∈ seen, ∀ w ∈ succ v, w ∈ seen ∨ w ∈ stack

/-- The edges that are still to be followed, and the vertices that wait on the stack. -/
def searchBound [DecidableEq V] (succ : V → List V) (U : Finset V) (stack : List V)
    (seen : Finset V) : Nat :=
  stack.length + ∑ v ∈ U \ seen, (succ v).length

section Spec

variable {succ : V → List V} {start target node : V} {stack : List V} {seen : Finset V}

theorem SearchInv.init : SearchInv succ start target [start] ∅ where
  stack_reachable := by
    intro v hv
    rw [List.mem_singleton.1 hv]
  start_mem := .inr (List.mem_singleton_self start)
  target_notMem := Finset.notMem_empty target
  closed := by
    intro v hv
    exact absurd hv (Finset.notMem_empty v)

/-- Skipping a vertex that was seen. -/
theorem SearchInv.skip (h : SearchInv succ start target (node :: stack) seen)
    (hseen : node ∈ seen) : SearchInv succ start target stack seen where
  stack_reachable := fun v hv => h.stack_reachable v (List.mem_cons_of_mem node hv)
  start_mem := by
    rcases h.start_mem with hstart | hstart
    · exact .inl hstart
    · rcases List.mem_cons.1 hstart with rfl | hstart
      · exact .inl hseen
      · exact .inr hstart
  target_notMem := h.target_notMem
  closed := by
    intro v hv w hw
    rcases h.closed v hv w hw with hin | hin
    · exact .inl hin
    · rcases List.mem_cons.1 hin with rfl | hin
      · exact .inl hseen
      · exact .inr hin

/-- When the stack is empty, what was seen is closed under the edges and does not hold the target. -/
theorem SearchInv.not_reachable (h : SearchInv succ start target [] seen) :
    ¬ ReflTransGen (Succ succ) start target := by
  intro hwalk
  -- Along the walk: the start was seen, and with a vertex its successors were.
  have hseen : ∀ {v}, ReflTransGen (Succ succ) start v → v ∈ seen := by
    intro v hv
    induction hv with
    | refl =>
        simpa using h.start_mem
    | tail _ hedge ih =>
        simpa using h.closed _ ih _ hedge
  exact h.target_notMem (hseen hwalk)

variable [DecidableEq V] {U : Finset V}

/-- Following the edges of a vertex seen for the first time. -/
theorem SearchInv.push (h : SearchInv succ start target (node :: stack) seen)
    (hne : node ≠ target) :
    SearchInv succ start target ((succ node).reverse ++ stack) (insert node seen) where
  stack_reachable := by
    intro v hv
    have hnode := h.stack_reachable node List.mem_cons_self
    rcases List.mem_append.1 hv with hnew | hold
    · exact hnode.tail (List.mem_reverse.1 hnew)
    · exact h.stack_reachable v (List.mem_cons_of_mem node hold)
  start_mem := by
    rcases h.start_mem with hstart | hstart
    · exact .inl (Finset.mem_insert_of_mem hstart)
    · rcases List.mem_cons.1 hstart with rfl | hstart
      · exact .inl (Finset.mem_insert_self _ _)
      · exact .inr (List.mem_append_right _ hstart)
  target_notMem := by
    rw [Finset.mem_insert, not_or]
    exact ⟨Ne.symm hne, h.target_notMem⟩
  closed := by
    intro v hv w hw
    rcases Finset.mem_insert.1 hv with rfl | hv
    · exact .inr (List.mem_append_left _ (List.mem_reverse.2 hw))
    · rcases h.closed v hv w hw with hin | hin
      · exact .inl (Finset.mem_insert_of_mem hin)
      · rcases List.mem_cons.1 hin with rfl | hin
        · exact .inl (Finset.mem_insert_self _ _)
        · exact .inr (List.mem_append_right _ hin)

theorem searchBound_push (hU : ∀ v ∉ U, succ v = []) (hseen : node ∉ seen) (stack : List V) :
    searchBound succ U ((succ node).reverse ++ stack) (insert node seen) + 1 =
      searchBound succ U (node :: stack) seen := by
  unfold searchBound
  -- The edges of the vertex move from the sum to the stack, and the vertex leaves the stack.
  by_cases hnode : node ∈ U
  · have hmem : node ∈ U \ seen := Finset.mem_sdiff.2 ⟨hnode, hseen⟩
    have hsplit := Finset.add_sum_erase (U \ seen) (fun v => (succ v).length) hmem
    have herase : U \ insert node seen = (U \ seen).erase node := by
      ext v
      simp only [Finset.mem_sdiff, Finset.mem_insert, Finset.mem_erase, not_or]
      tauto
    rw [herase, ← hsplit]
    simp only [List.length_append, List.length_reverse, List.length_cons]
    omega
  · have hsame : U \ insert node seen = U \ seen := by
      ext v
      simp only [Finset.mem_sdiff, Finset.mem_insert, not_or]
      constructor
      · exact fun h => ⟨h.1, h.2.2⟩
      · exact fun h => ⟨h.1, fun heq => hnode (heq ▸ h.1), h.2⟩
    rw [hsame, hU node hnode]
    simp only [List.reverse_nil, List.nil_append, List.length_cons]
    omega

theorem SearchInv.run (hU : ∀ v ∉ U, succ v = []) (fuel : Nat)
    (h : SearchInv succ start target stack seen) (hfuel : searchBound succ U stack seen < fuel) :
    ∃ found, search succ target fuel stack seen = some found ∧
      (found = true ↔ ReflTransGen (Succ succ) start target) := by
  induction fuel generalizing stack seen with
  | zero =>
      exact absurd hfuel (Nat.not_lt_zero _)
  | succ fuel ih =>
      cases stack with
      | nil =>
          exact ⟨false, rfl, by simpa using h.not_reachable⟩
      | cons node stack =>
          by_cases htarget : node = target
          · refine ⟨true, by simp [search, htarget], ?_⟩
            exact iff_of_true rfl (htarget ▸ h.stack_reachable node List.mem_cons_self)
          by_cases hseen : node ∈ seen
          · have hless : searchBound succ U stack seen < fuel := by
              simp only [searchBound, List.length_cons] at hfuel ⊢
              omega
            rcases ih (h.skip hseen) hless with ⟨found, hfound, hiff⟩
            exact ⟨found, by simp [search, htarget, hseen, hfound], hiff⟩
          · have hless := searchBound_push hU hseen stack
            rcases ih (h.push htarget) (by omega) with ⟨found, hfound, hiff⟩
            exact ⟨found, by simp [search, htarget, hseen, hfound], hiff⟩

/-- With a round for each edge and two more, the search from a vertex answers whether it reaches the
target. -/
theorem search_spec (hU : ∀ v ∉ U, succ v = []) {edges : Nat}
    (hedges : ∑ v ∈ U, (succ v).length ≤ edges) :
    ∃ found, search succ target (edges + 2) [start] ∅ = some found ∧
      (found = true ↔ ReflTransGen (Succ succ) start target) := by
  refine SearchInv.init.run hU (edges + 2) ?_
  simp only [searchBound, List.length_singleton, Finset.sdiff_empty]
  omega

end Spec

end Digraph
end Lib
end Aivcs
