import Mathlib.Data.List.Nodup
import Mathlib.Data.List.Perm.Basic

/-!
# DirTree — directory trees

A directory lists its entries in some order, each with a name; what is not a directory is a leaf.  Leaves are of
any type, and so are names, which are texts unless another type is given.  `LeafAt t path a` says that the
names of `path` lead from the root of `t` to the leaf `a`.

* `Relisted t t'` — the same tree with its directories listed in another order; the same leaves are at the
  same paths (`Relisted.leafAt_iff`);
* `leaves keep t` — the leaves below kept names with their paths (`mem_leaves`), each once
  (`nodup_leaves`).
-/

namespace Aivcs
namespace Lib

inductive DirTree (α : Type) (ν : Type := String) where
  | leaf (a : α)
  | dir (entries : List (ν × DirTree α ν))

namespace DirTree

variable {α ν : Type} {t t' : DirTree α ν} {es : List (ν × DirTree α ν)} {path : List ν} {a : α}

/-- Names are names, no directory has two entries of one name, and every leaf is as it should be. -/
inductive WellFormed (isName : ν → Prop) (isLeaf : α → Prop) : DirTree α ν → Prop where
  | leaf {a : α} : isLeaf a → WellFormed isName isLeaf (.leaf a)
  | dir {es : List (ν × DirTree α ν)} : (es.map Prod.fst).Nodup → (∀ e ∈ es, isName e.1) →
      (∀ e ∈ es, WellFormed isName isLeaf e.2) → WellFormed isName isLeaf (.dir es)

/-! ## Paths -/

inductive LeafAt : DirTree α ν → List ν → α → Prop where
  | leaf (a : α) : LeafAt (.leaf a) [] a
  | dir {es : List (ν × DirTree α ν)} {e : ν × DirTree α ν} {path : List ν} {a : α} :
      e ∈ es → LeafAt e.2 path a → LeafAt (.dir es) (e.1 :: path) a

theorem leafAt_leaf_iff {b : α} : LeafAt (.leaf b) path a ↔ path = [] ∧ a = b := by
  constructor
  · intro h
    cases h
    exact ⟨rfl, rfl⟩
  · rintro ⟨rfl, rfl⟩
    exact .leaf a

theorem leafAt_dir_iff : LeafAt (.dir es) path a ↔
    ∃ e ∈ es, ∃ rest, path = e.1 :: rest ∧ LeafAt e.2 rest a := by
  constructor
  · intro h
    cases h with
    | dir he hrest => exact ⟨_, he, _, rfl, hrest⟩
  · rintro ⟨e, he, rest, rfl, hrest⟩
    exact .dir he hrest

theorem not_leafAt_dir_nil : ¬ LeafAt (.dir es) [] a := by
  intro h
  cases h

/-- The names on the way to a leaf are names. -/
theorem WellFormed.isName_of_leafAt {isName : ν → Prop} {isLeaf : α → Prop}
    (h : t.WellFormed isName isLeaf) (ha : LeafAt t path a) : ∀ name ∈ path, isName name := by
  induction ha with
  | leaf a => exact List.forall_mem_nil _
  | dir he _ ih =>
      cases h with
      | dir _ hnames hbelow => exact List.forall_mem_cons.2 ⟨hnames _ he, ih (hbelow _ he)⟩

/-! ## Orders of listing -/

/-- A directory is listed in another order, here or further down, any number of times. -/
inductive Relisted : DirTree α ν → DirTree α ν → Prop where
  | refl (t : DirTree α ν) : Relisted t t
  | perm {es es' : List (ν × DirTree α ν)} : es.Perm es' → Relisted (.dir es) (.dir es')
  | entry {pre post : List (ν × DirTree α ν)} {name : ν} {t t' : DirTree α ν} :
      Relisted t t' → Relisted (.dir (pre ++ (name, t) :: post)) (.dir (pre ++ (name, t') :: post))
  | trans {t t' t'' : DirTree α ν} : Relisted t t' → Relisted t' t'' → Relisted t t''

/-- The same leaves are at the same paths. -/
theorem Relisted.leafAt_iff (h : Relisted t t') : LeafAt t path a ↔ LeafAt t' path a := by
  induction h generalizing path a with
  | refl => exact Iff.rfl
  | perm hperm =>
      simp only [leafAt_dir_iff, hperm.mem_iff]
  | entry _ ih =>
      simp only [leafAt_dir_iff, List.mem_append, List.mem_cons, or_and_right, exists_or, exists_eq_left, ih]
  | trans _ _ ih ih' => exact ih.trans ih'

/-! ## Leaves -/

section Leaves

variable (keep : ν → Bool)

mutual

/-- The leaves that only kept names lead to. -/
def leaves : DirTree α ν → List (List ν × α)
  | .leaf a => [([], a)]
  | .dir es => leavesIn es

def leavesIn : List (ν × DirTree α ν) → List (List ν × α)
  | [] => []
  | (name, t) :: es =>
      if keep name then (leaves t).map (fun f => (name :: f.1, f.2)) ++ leavesIn es else leavesIn es

end

theorem leavesIn_eq_flatMap (es : List (ν × DirTree α ν)) :
    leavesIn keep es = (es.filter fun e => keep e.1).flatMap fun e =>
      (leaves keep e.2).map fun f => (e.1 :: f.1, f.2) := by
  induction es with
  | nil => rfl
  | cons e es ih =>
      cases hkeep : keep e.1 with
      | true => simp [leavesIn, hkeep, ih]
      | false => simp [leavesIn, hkeep, ih]

variable {keep}

theorem mem_leaves : (path, a) ∈ leaves keep t ↔ LeafAt t path a ∧ ∀ name ∈ path, keep name = true := by
  -- Down the path, whatever the tree is.
  induction path generalizing t with
  | nil =>
      cases t with
      | leaf b => simp [leaves, leafAt_leaf_iff]
      | dir es => simp [leaves, leavesIn_eq_flatMap, not_leafAt_dir_nil]
  | cons name path ih =>
      cases t with
      | leaf b => simp [leaves, leafAt_leaf_iff]
      | dir es =>
          have hbelow : (name :: path, a) ∈ leaves keep (.dir es) ↔
              ∃ e ∈ es, keep e.1 = true ∧ e.1 = name ∧ (path, a) ∈ leaves keep e.2 := by
            simp [leaves, leavesIn_eq_flatMap, and_assoc]
          have hleaf : LeafAt (.dir es) (name :: path) a ↔ ∃ e ∈ es, e.1 = name ∧ LeafAt e.2 path a := by
            simp [leafAt_dir_iff, eq_comm, and_assoc]
          rw [hbelow, hleaf, List.forall_mem_cons]
          constructor
          · rintro ⟨e, he, hkeep, rfl, hrest⟩
            exact ⟨⟨e, he, rfl, (ih.1 hrest).1⟩, hkeep, (ih.1 hrest).2⟩
          · rintro ⟨⟨e, he, rfl, hrest⟩, hkeep, hnames⟩
            exact ⟨e, he, hkeep, rfl, ih.2 ⟨hrest, hnames⟩⟩

/-- No path is listed twice. -/
theorem nodup_leaves {isName : ν → Prop} {isLeaf : α → Prop} (h : t.WellFormed isName isLeaf) :
    ((leaves keep t).map Prod.fst).Nodup := by
  induction h with
  | leaf => exact List.nodup_singleton _
  | @dir es hnodup _ _ ih =>
      have hpaths : (leaves keep (.dir es)).map Prod.fst = (es.filter fun e => keep e.1).flatMap fun e =>
          ((leaves keep e.2).map Prod.fst).map (List.cons e.1) := by
        rw [leaves, leavesIn_eq_flatMap, List.map_flatMap]
        simp only [List.map_map, Function.comp_def]
      rw [hpaths, List.nodup_flatMap]
      constructor
      · intro e he
        exact (ih e (List.mem_of_mem_filter he)).map (List.cons_injective)
      · -- Paths through different entries begin with different names.
        have hnames : (es.filter fun e => keep e.1).Pairwise fun e e' => e.1 ≠ e'.1 :=
          List.pairwise_map.1 (hnodup.sublist (List.filter_sublist.map Prod.fst))
        refine hnames.imp ?_
        intro e e' hne path hpath hpath'
        rcases List.mem_map.1 hpath with ⟨rest, -, rfl⟩
        rcases List.mem_map.1 hpath' with ⟨rest', -, heq⟩
        exact hne (List.cons.inj heq).1.symm

end Leaves

end DirTree
end Lib
end Aivcs
