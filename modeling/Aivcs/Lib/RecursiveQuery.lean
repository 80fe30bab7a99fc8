import Mathlib.Data.List.Forall2
import Mathlib.Data.List.Range
import Aivcs.Lib.Hash

/-!
# RecursiveQuery — the rows of a recursive table expression

`WITH RECURSIVE t AS (anchor UNION ALL member)`: the rows of the anchor, then again and again what the
member makes of the rows of the last round, until a round is empty.  The member reads the last round once,
so it is given by what it makes of a single row; it may fail, and the query with it.

* `unionAll_eq` — the rows are the rounds one after the other, when no row fails;
* `unionAll_forall` — what the anchor has and the member preserves holds of every row;
* `rowsAt_map` — rounds of numbered rows from rounds of what they stand for.

The evaluation is fuelled: `none` is the query that has not finished.
-/

namespace Aivcs
namespace Lib
namespace RecursiveQuery

variable {R A ε : Type}

/-- The rows from a round on. -/
def unionAll (member : R → Except ε (List R)) : Nat → List R → Option (Except ε (List R))
  | 0, _ => none
  | _ + 1, [] => some (.ok [])
  | fuel + 1, row :: rows =>
      match (row :: rows).mapM member with
      | .error e => some (.error e)
      | .ok next => (unionAll member fuel next.flatten).map fun r => r.map (row :: rows ++ ·)

/-- The rows of a round, for a member that does not fail. -/
def rowsAt (next : R → List R) (anchor : List R) : Nat → List R
  | 0 => anchor
  | k + 1 => (rowsAt next anchor k).flatMap next

section Round

variable {next : R → List R}

theorem rowsAt_succ' (anchor : List R) (k : Nat) :
    rowsAt next anchor (k + 1) = rowsAt next (anchor.flatMap next) k := by
  induction k with
  | zero =>
      rfl
  | succ k ih =>
      rw [rowsAt, ih, rowsAt]

theorem rowsAt_nil (k : Nat) : rowsAt next [] k = [] := by
  induction k with
  | zero =>
      rfl
  | succ k ih =>
      rw [rowsAt, ih, List.flatMap_nil]

/-- When `f k` turns what is found in round `k` into rows, it does so round by round. -/
theorem rowsAt_map (f : Nat → A → R) (children : A → List A)
    (hnext : ∀ k a, next (f k a) = (children a).map (f (k + 1))) (anchor : List A) (k : Nat) :
    rowsAt next (anchor.map (f 0)) k = (rowsAt children anchor k).map (f k) := by
  induction k with
  | zero =>
      rfl
  | succ k ih =>
      rw [rowsAt, ih, rowsAt, List.flatMap_map, List.map_flatMap]
      exact List.flatMap_congr fun a _ => hnext k a

end Round

section UnionAll

variable {member : R → Except ε (List R)} {next : R → List R}

theorem mapM_ok {rows : List R} (h : ∀ row ∈ rows, member row = .ok (next row)) :
    rows.mapM member = .ok (rows.map next) := by
  induction rows with
  | nil =>
      rfl
  | cons row rows ih =>
      rw [List.forall_mem_cons] at h
      rw [List.mapM_cons, h.1, ih h.2]
      rfl

theorem forall₂_of_mapM_ok {rows : List R} {found : List (List R)}
    (h : rows.mapM member = .ok found) :
    List.Forall₂ (fun row l => member row = .ok l) rows found := by
  induction rows generalizing found with
  | nil =>
      obtain rfl : [] = found := Except.ok.inj h
      exact List.Forall₂.nil
  | cons row rows ih =>
      rw [List.mapM_cons] at h
      cases hrow : member row with
      | error e =>
          rw [hrow] at h
          cases h
      | ok first =>
          cases hrest : rows.mapM member with
          | error e =>
              rw [hrow, hrest] at h
              cases h
          | ok rest =>
              rw [hrow, hrest] at h
              obtain rfl : first :: rest = found := Except.ok.inj h
              exact List.Forall₂.cons hrow (ih hrest)

/-- The rounds one after the other, up to the first that is empty. -/
theorem unionAll_eq {anchor : List R} {n fuel : Nat}
    (hmember : ∀ k, ∀ row ∈ rowsAt next anchor k, member row = .ok (next row))
    (hend : rowsAt next anchor n = []) (hfuel : n < fuel) :
    unionAll member fuel anchor = some (.ok ((List.range n).flatMap (rowsAt next anchor))) := by
  induction fuel generalizing anchor n with
  | zero =>
      omega
  | succ fuel ih =>
      cases anchor with
      | nil =>
          have hrounds : (List.range n).flatMap (rowsAt next ([] : List R)) = [] := by
            simp [rowsAt_nil]
          rw [hrounds]
          rfl
      | cons row rows =>
          cases n with
          | zero =>
              cases hend
          | succ n =>
              -- The rounds after the first are those of the query that starts with the second.
              have hlater : ∀ k, ∀ row' ∈ rowsAt next ((row :: rows).flatMap next) k,
                  member row' = .ok (next row') := by
                intro k row' hrow'
                rw [← rowsAt_succ'] at hrow'
                exact hmember (k + 1) row' hrow'
              have hrest := ih hlater (by rwa [← rowsAt_succ']) (Nat.lt_of_succ_lt_succ hfuel)
              have hfound : (row :: rows).mapM member = .ok ((row :: rows).map next) :=
                mapM_ok (hmember 0)
              have hrounds : (List.range (n + 1)).flatMap (rowsAt next (row :: rows)) =
                  row :: rows ++ (List.range n).flatMap (rowsAt next ((row :: rows).flatMap next)) := by
                rw [List.range_succ_eq_map, List.flatMap_cons, List.flatMap_map]
                simp only [rowsAt_succ']
                rfl
              simp only [unionAll, hfound, ← List.flatMap_def, hrest, hrounds, Option.map_some,
                Except.map]

/-- A query ends, with or without an error, when the rounds do. -/
theorem unionAll_ne_none {anchor : List R} {n fuel : Nat}
    (hmember : ∀ row rows, member row = .ok rows → rows = next row)
    (hend : rowsAt next anchor n = []) (hfuel : n < fuel) : unionAll member fuel anchor ≠ none := by
  induction fuel generalizing anchor n with
  | zero =>
      omega
  | succ fuel ih =>
      cases anchor with
      | nil =>
          exact Option.some_ne_none _
      | cons row rows =>
          cases n with
          | zero =>
              cases hend
          | succ n =>
              cases hfound : (row :: rows).mapM member with
              | error e =>
                  simp [unionAll, hfound]
              | ok found =>
                  -- Without an error the round is what `next` makes of it.
                  have hall : List.Forall₂ (fun row' l => next row' = l) (row :: rows) found :=
                    (forall₂_of_mapM_ok hfound).imp fun row' l hok => (hmember row' l hok).symm
                  have hsame : List.Forall₂ (· = ·) ((row :: rows).map next) found :=
                    List.forall₂_map_left_iff.2 hall
                  rw [List.forall₂_eq_eq_eq] at hsame
                  rw [rowsAt_succ'] at hend
                  have hrest := ih hend (Nat.lt_of_succ_lt_succ hfuel)
                  simp only [unionAll, hfound, ne_eq, Option.map_eq_none_iff, ← hsame]
                  rwa [← List.flatMap_def]

/-- The induction rule: what the anchor has and the member preserves holds of every row. -/
theorem unionAll_forall {P : R → Prop} {anchor out : List R} {fuel : Nat}
    (hanchor : ∀ row ∈ anchor, P row)
    (hmember : ∀ row rows, P row → member row = .ok rows → ∀ row' ∈ rows, P row')
    (h : unionAll member fuel anchor = some (.ok out)) : ∀ row ∈ out, P row := by
  induction fuel generalizing anchor out with
  | zero =>
      cases h
  | succ fuel ih =>
      cases anchor with
      | nil =>
          obtain rfl : [] = out := Except.ok.inj (Option.some.inj h)
          exact List.forall_mem_nil _
      | cons row rows =>
          cases hfound : (row :: rows).mapM member with
          | error e =>
              simp [unionAll, hfound] at h
          | ok found =>
              simp only [unionAll, hfound, Option.map_eq_some_iff] at h
              rcases h with ⟨rest, hrest, hout⟩
              cases rest with
              | error e =>
                  cases hout
              | ok rest =>
                  obtain rfl : row :: rows ++ rest = out := Except.ok.inj hout
                  have hnext : ∀ row' ∈ found.flatten, P row' := by
                    intro row' hrow'
                    rcases List.mem_flatten.1 hrow' with ⟨l, hl, hmem⟩
                    rcases exists_left_of_forall₂ (forall₂_of_mapM_ok hfound) hl
                      with ⟨source, hsource, hok⟩
                    exact hmember source l (hanchor source hsource) hok row' hmem
                  exact List.forall_mem_append.2 ⟨hanchor, ih hnext hrest⟩

end UnionAll

end RecursiveQuery
end Lib
end Aivcs
