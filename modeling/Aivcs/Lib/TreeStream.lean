import Aivcs.Lib.DirTree
import Aivcs.Lib.Text
import Mathlib.Logic.Relation

/-!
# TreeStream — trees written with one separator

A directory is written as its entries one after the other: the name, a separator, and what is below, where a file
is its content and a separator.  Nothing marks a directory or its end, so entries can be run together (`Absorbs`)
without a difference.  Every directory can be brought to one entry in this way, which can be read back:
`writtenIn_eq_iff`.
-/

namespace Aivcs
namespace Lib
namespace TreeStream

variable {α : Type}

/-- What a directory lists, in its order. -/
abbrev Listing (α : Type) := List (List α × DirTree (List α) (List α))

variable (sep : α)

mutual

def written : DirTree (List α) (List α) → List α
  | .leaf content => content ++ [sep]
  | .dir entries => writtenIn entries

def writtenIn : Listing α → List α
  | [] => []
  | (name, t) :: entries => name ++ sep :: (written t ++ writtenIn entries)

end

/-- A file with this content, or a directory without entries. -/
def bare : Option (List α) → DirTree (List α) (List α)
  | some content => .leaf content
  | none => .dir []

/-- What is written of such an entry, without the separator at its end. -/
def line (name : List α) : Option (List α) → List α
  | some content => name ++ sep :: content
  | none => name

/-- An entry takes what is written of another one into its content: the next one, or the only one below it. -/
inductive Absorbs : Listing α → Listing α → Prop where
  | nextOfFile (front rest : Listing α) (name content next : List α) (below : Option (List α)) :
      Absorbs (front ++ (name, .leaf content) :: (next, bare below) :: rest)
        (front ++ (name, .leaf (content ++ sep :: line sep next below)) :: rest)
  | nextOfEmpty (front rest : Listing α) (name next : List α) (below : Option (List α)) :
      Absorbs (front ++ (name, .dir []) :: (next, bare below) :: rest)
        (front ++ (name, .leaf (line sep next below)) :: rest)
  | only (front rest : Listing α) (name next : List α) (below : Option (List α)) :
      Absorbs (front ++ (name, .dir [(next, bare below)]) :: rest)
        (front ++ (name, .leaf (line sep next below)) :: rest)
  | inside (front rest : Listing α) (name : List α) {es es' : Listing α} : Absorbs es es' →
      Absorbs (front ++ (name, .dir es) :: rest) (front ++ (name, .dir es') :: rest)

/-- The entries of both can be run together into the same ones. -/
def RunTogether : Listing α → Listing α → Prop :=
  Relation.Join (Relation.ReflTransGen (Absorbs sep))

/-! ## What is written stays -/

section Written

variable {sep}

theorem writtenIn_append (es es' : Listing α) :
    writtenIn sep (es ++ es') = writtenIn sep es ++ writtenIn sep es' := by
  induction es with
  | nil => rfl
  | cons e es ih => simp [writtenIn, ih]

theorem writtenIn_bare (name : List α) (below : Option (List α)) (rest : Listing α) :
    writtenIn sep ((name, bare below) :: rest) = line sep name below ++ sep :: writtenIn sep rest := by
  cases below with
  | none => rfl
  | some content => simp [writtenIn, written, bare, line]

/-- A piece of a listing may be exchanged for one that is written alike. -/
theorem writtenIn_congr {piece piece' : Listing α} (h : writtenIn sep piece = writtenIn sep piece')
    (front rest : Listing α) :
    writtenIn sep (front ++ (piece ++ rest)) = writtenIn sep (front ++ (piece' ++ rest)) := by
  rw [writtenIn_append, writtenIn_append, writtenIn_append, writtenIn_append, h]

theorem writtenIn_leaf (name content : List α) :
    writtenIn sep [(name, .leaf content)] = name ++ sep :: (content ++ [sep]) := by
  simp [writtenIn, written]

theorem writtenIn_dir (name : List α) (es : Listing α) :
    writtenIn sep [(name, .dir es)] = name ++ sep :: writtenIn sep es := by
  simp [writtenIn, written]

theorem Absorbs.writtenIn_eq {es es' : Listing α} (h : Absorbs sep es es') :
    writtenIn sep es = writtenIn sep es' := by
  induction h with
  | nextOfFile front rest name content next below =>
      have hpiece : writtenIn sep [(name, .leaf content), (next, bare below)] =
          writtenIn sep [(name, .leaf (content ++ sep :: line sep next below))] := by
        rw [writtenIn, writtenIn_bare, writtenIn_leaf]
        simp [writtenIn, written]
      exact writtenIn_congr hpiece front rest
  | nextOfEmpty front rest name next below =>
      have hpiece : writtenIn sep [(name, .dir []), (next, bare below)] =
          writtenIn sep [(name, .leaf (line sep next below))] := by
        rw [writtenIn, writtenIn_bare, writtenIn_leaf]
        simp [writtenIn, written]
      exact writtenIn_congr hpiece front rest
  | only front rest name next below =>
      have hpiece : writtenIn sep [(name, .dir [(next, bare below)])] =
          writtenIn sep [(name, .leaf (line sep next below))] := by
        rw [writtenIn_dir, writtenIn_bare, writtenIn_leaf]
        rfl
      exact writtenIn_congr hpiece front rest
  | @inside front rest name es es' _ ih =>
      have hpiece : writtenIn sep [(name, .dir es)] = writtenIn sep [(name, .dir es')] := by
        rw [writtenIn_dir, writtenIn_dir, ih]
      exact writtenIn_congr hpiece front rest

theorem writtenIn_eq_of_reflTransGen {es es' : Listing α} (h : Relation.ReflTransGen (Absorbs sep) es es') :
    writtenIn sep es = writtenIn sep es' := by
  induction h with
  | refl => rfl
  | tail _ hstep ih => exact ih.trans hstep.writtenIn_eq

end Written

/-! ## One entry is left -/

section Reduce

variable {sep}

theorem reflTransGen_inside {es es' : Listing α} (h : Relation.ReflTransGen (Absorbs sep) es es')
    (front rest : Listing α) (name : List α) :
    Relation.ReflTransGen (Absorbs sep) (front ++ (name, .dir es) :: rest) (front ++ (name, .dir es') :: rest) :=
  h.lift (fun es => front ++ (name, .dir es) :: rest) fun _ _ => Absorbs.inside front rest name

/-- A bare entry takes in the next one. -/
theorem exists_absorbs_next (front rest : Listing α) (name next : List α) (below below' : Option (List α)) :
    ∃ content, Absorbs sep (front ++ (name, bare below) :: (next, bare below') :: rest)
      (front ++ (name, bare (some content)) :: rest) := by
  cases below with
  | none => exact ⟨_, .nextOfEmpty front rest name next below'⟩
  | some content => exact ⟨_, .nextOfFile front rest name content next below'⟩

variable (sep) in
/-- The entry of a tree can be made bare where it is. -/
def Reduces (t : DirTree (List α) (List α)) : Prop :=
  ∀ (front rest : Listing α) (name : List α), ∃ below,
    Relation.ReflTransGen (Absorbs sep) (front ++ (name, t) :: rest) (front ++ (name, bare below) :: rest)

theorem exists_reduced_of_reduces (name : List α) {t : DirTree (List α) (List α)} {rest : Listing α}
    (ht : Reduces sep t) (hrest : ∀ e ∈ rest, Reduces sep e.2) :
    ∃ below, Relation.ReflTransGen (Absorbs sep) ((name, t) :: rest) [(name, bare below)] := by
  -- The first entry, once it is bare, takes in the others one by one.
  have htake : ∀ below, ∃ below',
      Relation.ReflTransGen (Absorbs sep) ((name, bare below) :: rest) [(name, bare below')] := by
    induction rest with
    | nil => exact fun below => ⟨below, .refl⟩
    | cons e rest ih =>
        rw [List.forall_mem_cons] at hrest
        intro below
        rcases hrest.1 [(name, bare below)] rest e.1 with ⟨below', hreduce⟩
        rcases exists_absorbs_next [] rest name e.1 below below' with ⟨content, hnext⟩
        rcases ih hrest.2 (some content) with ⟨all, hall⟩
        exact ⟨all, hreduce.trans (.head hnext hall)⟩
  rcases ht [] rest name with ⟨below, hreduce⟩
  rcases htake below with ⟨all, hall⟩
  exact ⟨all, hreduce.trans hall⟩

theorem reduces_dir {entries : Listing α} (h : ∀ e ∈ entries, Reduces sep e.2) : Reduces sep (.dir entries) := by
  intro front rest name
  cases entries with
  | nil => exact ⟨none, .refl⟩
  | cons e entries =>
      rw [List.forall_mem_cons] at h
      rcases exists_reduced_of_reduces e.1 h.1 h.2 with ⟨below, hreduce⟩
      exact ⟨some (line sep e.1 below),
        .tail (reflTransGen_inside hreduce front rest name) (.only front rest name e.1 below)⟩

mutual

theorem reduces : ∀ t : DirTree (List α) (List α), Reduces sep t
  | .leaf content => fun _ _ _ => ⟨some content, .refl⟩
  | .dir entries => reduces_dir (reducesIn entries)

theorem reducesIn : ∀ entries : Listing α, ∀ e ∈ entries, Reduces sep e.2
  | [] => List.forall_mem_nil _
  | (_, t) :: entries => List.forall_mem_cons.2 ⟨reduces t, reducesIn entries⟩

end

variable (sep) in
/-- A listing that is not empty is brought to one entry, under the first name. -/
theorem exists_reduced (e : List α × DirTree (List α) (List α)) (rest : Listing α) :
    ∃ below, Relation.ReflTransGen (Absorbs sep) (e :: rest) [(e.1, bare below)] :=
  exists_reduced_of_reduces e.1 (reduces e.2) (reducesIn rest)

/-- One entry is read back. -/
theorem writtenIn_singleton_inj {name name' : List α} {below below' : Option (List α)} (hname : sep ∉ name)
    (hname' : sep ∉ name') (h : writtenIn sep [(name, bare below)] = writtenIn sep [(name', bare below')]) :
    name = name' ∧ below = below' := by
  -- Behind the first separator nothing is left, or a content and a separator.
  have hentry (name : List α) (below : Option (List α)) : writtenIn sep [(name, bare below)] =
      name ++ sep :: (below.map fun content => content ++ [sep]).getD [] := by
    cases below with
    | none => rfl
    | some content => simp [writtenIn, written, bare]
  have hinj : Function.Injective fun below : Option (List α) =>
      (below.map fun content => content ++ [sep]).getD [] := by
    intro below below' h
    cases below with
    | none =>
        cases below' with
        | none => rfl
        | some content => simp at h
    | some content =>
        cases below' with
        | none => simp at h
        | some content' => exact congrArg some (List.append_cancel_right h)
  rw [hentry, hentry] at h
  rcases append_sep_inj hname hname' h with ⟨hnames, hbelow⟩
  exact ⟨hnames, hinj hbelow⟩

/-- Listings are written alike exactly when their entries can be run together into the same ones. -/
theorem writtenIn_eq_iff {es es' : Listing α} (h : ∀ e ∈ es.head?, sep ∉ e.1) (h' : ∀ e ∈ es'.head?, sep ∉ e.1) :
    writtenIn sep es = writtenIn sep es' ↔ RunTogether sep es es' := by
  constructor
  · intro heq
    cases es with
    | nil =>
        cases es' with
        | nil => exact ⟨[], .refl, .refl⟩
        | cons e es' => simp [writtenIn] at heq
    | cons e es =>
        cases es' with
        | nil => simp [writtenIn] at heq
        | cons e' es' =>
            rcases exists_reduced sep e es with ⟨below, hreduce⟩
            rcases exists_reduced sep e' es' with ⟨below', hreduce'⟩
            -- One entry is left of each, and what is written of it says which.
            have hone : writtenIn sep [(e.1, bare below)] = writtenIn sep [(e'.1, bare below')] :=
              calc writtenIn sep [(e.1, bare below)] = writtenIn sep (e :: es) :=
                    (writtenIn_eq_of_reflTransGen hreduce).symm
                _ = writtenIn sep (e' :: es') := heq
                _ = writtenIn sep [(e'.1, bare below')] := writtenIn_eq_of_reflTransGen hreduce'
            rcases writtenIn_singleton_inj (h e rfl) (h' e' rfl) hone with ⟨hname, hbelow⟩
            rw [hname, hbelow] at hreduce
            exact ⟨_, hreduce, hreduce'⟩
  · rintro ⟨_, hes, hes'⟩
    exact (writtenIn_eq_of_reflTransGen hes).trans (writtenIn_eq_of_reflTransGen hes').symm

end Reduce

end TreeStream
end Lib
end Aivcs
