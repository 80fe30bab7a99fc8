import Mathlib.Data.List.Nodup
import Mathlib.Data.List.Perm.Subperm
import Mathlib.Order.Bounds.Defs

/-!
# SimplePaths — searching a graph along paths that visit nothing twice

A `Route` is what a search that remembers its path has found: the vertices it came by and the one it is at,
none of them twice.  Cutting a walk where it meets itself loses no vertex and makes no walk longer, so

* `Walk.exists_route`, `Route.walk` — routes and walks reach the same vertices, within the same number of
  edges;
* `isLeast_route` — the shortest route to a vertex is as long as the shortest walk.
-/

namespace Aivcs
namespace Lib
namespace SimplePaths

variable {V : Type} (r : V → V → Prop) (S : V → Prop)

/-- A walk of so many edges. -/
inductive Walk : Nat → V → V → Prop
  | nil (x : V) : Walk 0 x x
  | tail {n : Nat} {x u v : V} (h : Walk n x u) (huv : r u v) : Walk (n + 1) x v

/-- A path from a start in `S`: the vertices before, in order, and the last. -/
inductive Route : List V → V → Prop
  | start {v : V} (h : S v) : Route [] v
  | step {q : List V} {u v : V} (h : Route q u) (huv : r u v) (hnew : v ∉ q ++ [u]) :
      Route (q ++ [u]) v

variable {r S} {q : List V} {n m : Nat} {u v x y z : V}

/-! ## Walks -/

namespace Walk

theorem append (h : Walk r n x y) (h' : Walk r m y z) : Walk r (n + m) x z := by
  induction h' with
  | nil => exact h
  | tail _ huv ih => exact (ih h).tail huv

theorem head (hxy : r x y) (h : Walk r n y z) : Walk r (n + 1) x z := by
  have hone : Walk r 1 x y := Walk.tail (Walk.nil x) hxy
  rw [Nat.add_comm]
  exact hone.append h

/-- The walk the other way round. -/
theorem swap (h : Walk r n x y) : Walk (Function.swap r) n y x := by
  induction h with
  | nil => exact Walk.nil _
  | tail _ huv ih => exact Walk.head huv ih

theorem swap_iff : Walk (Function.swap r) n y x ↔ Walk r n x y :=
  ⟨fun h => h.swap, fun h => h.swap⟩

theorem succ_iff : Walk r (n + 1) x y ↔ ∃ u, Walk r n x u ∧ r u y := by
  constructor
  · intro h
    cases h with
    | tail h huv => exact ⟨_, h, huv⟩
  · rintro ⟨u, h, huv⟩
    exact h.tail huv

theorem zero_iff : Walk r 0 x y ↔ x = y := by
  constructor
  · intro h
    cases h
    rfl
  · rintro rfl
    exact Walk.nil x

end Walk

/-! ## Routes -/

namespace Route

theorem walk (h : Route r S q v) : ∃ s, S s ∧ Walk r q.length s v := by
  induction h with
  | start h => exact ⟨_, h, Walk.nil _⟩
  | step _ huv _ ih =>
      rcases ih with ⟨s, hs, hwalk⟩
      refine ⟨s, hs, ?_⟩
      rw [List.length_append, List.length_singleton]
      exact hwalk.tail huv

theorem nodup (h : Route r S q v) : (q ++ [v]).Nodup := by
  induction h with
  | start h => exact List.nodup_singleton _
  | @step q u v _ _ hnew ih =>
      rw [List.nodup_append]
      refine ⟨ih, List.nodup_singleton v, ?_⟩
      rintro a ha b hb rfl
      exact hnew (List.mem_singleton.1 hb ▸ ha)

/-- A route passes through each of its vertices on a shorter one. -/
theorem exists_of_mem (h : Route r S q v) (hu : u ∈ q ++ [v]) :
    ∃ q', Route r S q' u ∧ q'.length ≤ q.length := by
  induction h with
  | @start v h =>
      obtain rfl : u = v := by simpa using hu
      exact ⟨[], Route.start h, Nat.le_refl 0⟩
  | @step q w v h hwv hnew ih =>
      -- A vertex of the route before, or the one it has come to.
      rcases List.mem_append.1 hu with hold | hlast
      · rcases ih hold with ⟨q', hroute, hle⟩
        exact ⟨q', hroute, Nat.le_trans hle (by simp)⟩
      · obtain rfl : u = v := List.mem_singleton.1 hlast
        exact ⟨q ++ [w], Route.step h hwv hnew, Nat.le_refl _⟩

/-- A route has no more vertices than there are. -/
theorem length_lt {U : List V} (hS : ∀ s, S s → s ∈ U) (hr : ∀ u v, r u v → v ∈ U)
    (h : Route r S q v) : q.length < U.length := by
  have hone {v : V} (hv : v ∈ U) : [v] ⊆ U := by
    intro a ha
    rwa [List.mem_singleton.1 ha]
  have hsub : ∀ {q v}, Route r S q v → q ++ [v] ⊆ U := by
    intro q v h
    induction h with
    | start h => exact hone (hS _ h)
    | step _ huv _ ih => exact List.append_subset.2 ⟨ih, hone (hr _ _ huv)⟩
  calc
    q.length < (q ++ [v]).length := by simp
    _ ≤ U.length := (List.subperm_of_subset h.nodup (hsub h)).length_le

end Route

/-- A walk from a start is cut down to a route. -/
theorem Walk.exists_route (h : Walk r n x v) (hx : S x) :
    ∃ q, Route r S q v ∧ q.length ≤ n := by
  induction h with
  | nil =>
      exact ⟨[], Route.start hx, Nat.le_refl 0⟩
  | @tail n x u v _ huv ih =>
      rcases ih hx with ⟨q, hroute, hle⟩
      by_cases hnew : v ∈ q ++ [u]
      · -- The route has been here before: it goes on from there.
        rcases hroute.exists_of_mem hnew with ⟨q', hroute', hle'⟩
        exact ⟨q', hroute', Nat.le_succ_of_le (Nat.le_trans hle' hle)⟩
      · exact ⟨q ++ [u], Route.step hroute huv hnew, by simpa using hle⟩

/-- The shortest routes are as long as the shortest walks. -/
theorem isLeast_route (h : IsLeast {k | ∃ s, S s ∧ Walk r k s v} n) :
    IsLeast {k | ∃ q, Route r S q v ∧ q.length = k} n := by
  rcases h with ⟨⟨s, hs, hwalk⟩, hleast⟩
  have hlower : n ∈ lowerBounds {k | ∃ q, Route r S q v ∧ q.length = k} := by
    rintro k ⟨q, hroute, rfl⟩
    exact hleast hroute.walk
  rcases hwalk.exists_route hs with ⟨q, hroute, hle⟩
  exact ⟨⟨q, hroute, Nat.le_antisymm hle (hlower ⟨q, hroute, rfl⟩)⟩, hlower⟩

end SimplePaths
end Lib
end Aivcs
