import Mathlib.Algebra.BigOperators.Group.Finset.Piecewise
import Aivcs.IssueGraph.Edges
import Aivcs.Lib.Run
import Aivcs.Lib.Text

/-!
# IssueGraph.Acyclic — the cycle checks are exact where they apply

`Along edges kind` is the relation of the edges of one kind.  The search of both checks answers whether
the candidate's source is reachable from its target along it (`closesCycle_spec`), on any list of edges,
and an edge it lets through keeps the relation acyclic.

Each check has kinds it does not look at: the issue graph checks `blocks` only, the mesh every kind but the
symmetric one.

* `edges_stay_acyclic` — both checks are exact on the kinds they look at and refuse nothing else, the lists
  built under them stay acyclic, and they agree on `blocks` edges of issues.
-/

namespace Aivcs
namespace IssueGraph

open Aivcs.Lib Relation

/-! ## Edges of one kind -/

section Along

variable {ρ κ : Type}

/-- An edge of the kind leads from `a` to `b`. -/
def Along (edges : List (Edge ρ κ)) (kind : κ) (a b : ρ) : Prop :=
  ∃ e ∈ edges, e.kind = kind ∧ e.fromRef = a ∧ e.toRef = b

variable {edges : List (Edge ρ κ)} {kind : κ} {candidate : Edge ρ κ}

theorem along_concat (a b : ρ) :
    Along (edges ++ [candidate]) kind a b ↔
      Along edges kind a b ∨
        candidate.kind = kind ∧ candidate.fromRef = a ∧ candidate.toRef = b := by
  simp [Along, or_and_right, exists_or]

/-- An edge that closes no cycle of its kind keeps each kind as acyclic as it was. -/
theorem acyclic_concat (h : Digraph.Acyclic (Along edges kind))
    (hfree : candidate.kind = kind →
      ¬ ReflTransGen (Along edges kind) candidate.toRef candidate.fromRef) :
    Digraph.Acyclic (Along (edges ++ [candidate]) kind) := by
  by_cases hkind : candidate.kind = kind
  · have hnew : Along (edges ++ [candidate]) kind =
        Digraph.withEdge (Along edges kind) candidate.fromRef candidate.toRef := by
      funext a b
      simp only [along_concat, Digraph.withEdge, hkind, true_and, eq_comm]
    rw [hnew]
    exact h.withEdge (hfree hkind)
  · have hsame : Along (edges ++ [candidate]) kind = Along edges kind := by
      funext a b
      simp [along_concat, hkind]
    rwa [hsame]

/-- A declaration changes nothing or adds an edge the check let through. -/
theorem addEdge_cases (canonical : Declaration ρ κ → Except String (Edge ρ κ))
    (check : List (Edge ρ κ) → Edge ρ κ → Option Bool) (edges : List (Edge ρ κ))
    (d : Declaration ρ κ) :
    addEdge canonical check edges d = edges ∨
      ∃ candidate, canonical d = .ok candidate ∧ check edges candidate = some false ∧
        addEdge canonical check edges d = edges ++ [candidate] := by
  cases hd : canonical d with
  | error e =>
      exact .inl (by simp [addEdge, hd])
  | ok candidate =>
      by_cases hcheck : check edges candidate = some false
      · exact .inr ⟨candidate, rfl, hcheck, by simp [addEdge, hd, hcheck]⟩
      · exact .inl (by simp [addEdge, hd, hcheck])

variable [DecidableEq ρ] [DecidableEq κ]

theorem succ_targets : Digraph.Succ (Edge.targets edges kind) = Along edges kind := by
  funext a b
  simp only [Digraph.Succ, Edge.targets, List.mem_map, List.mem_filter, decide_eq_true_eq, Along,
    and_assoc]

/-- Each edge is followed from one vertex only. -/
theorem sum_length_targets (U : Finset ρ) (edges : List (Edge ρ κ)) (kind : κ) :
    ∑ a ∈ U, (Edge.targets edges kind a).length ≤ edges.length := by
  induction edges with
  | nil =>
      simp [Edge.targets]
  | cons e edges ih =>
      have hone : ∀ a ∈ U, (Edge.targets (e :: edges) kind a).length =
          (Edge.targets edges kind a).length +
            if a = e.fromRef then (if e.kind = kind then 1 else 0) else 0 := by
        intro a _
        by_cases hkind : e.kind = kind
        · by_cases ha : e.fromRef = a
          · simp [Edge.targets, hkind, ha]
          · simp [Edge.targets, hkind, ha, Ne.symm ha]
        · simp [Edge.targets, hkind]
      have hle : ∑ a ∈ U, (if a = e.fromRef then (if e.kind = kind then 1 else 0) else 0) ≤ 1 := by
        rw [Finset.sum_ite_eq']
        split
        · split
          · exact Nat.le_refl 1
          · exact Nat.zero_le 1
        · exact Nat.zero_le 1
      calc
        ∑ a ∈ U, (Edge.targets (e :: edges) kind a).length
            = ∑ a ∈ U, (Edge.targets edges kind a).length +
                ∑ a ∈ U, (if a = e.fromRef then (if e.kind = kind then 1 else 0) else 0) := by
              rw [Finset.sum_congr rfl hone, Finset.sum_add_distrib]
        _ ≤ edges.length + 1 := Nat.add_le_add ih hle
        _ = (e :: edges).length := rfl

/-- The search answers, and finds the candidate's source exactly when it is reachable from its
target. -/
theorem closesCycle_spec (edges : List (Edge ρ κ)) (kind : κ) (candidate : Edge ρ κ) :
    ∃ found, Edge.closesCycle edges kind candidate = some found ∧
      (found = true ↔ ReflTransGen (Along edges kind) candidate.toRef candidate.fromRef) := by
  -- Only sources of edges have successors, so the fuel `edges.length + 2` covers every push.
  have hU : ∀ a ∉ (edges.map Edge.fromRef).toFinset, Edge.targets edges kind a = [] := by
    intro a ha
    simp only [Edge.targets, List.map_eq_nil_iff, List.filter_eq_nil_iff, List.mem_filter,
      decide_eq_true_eq]
    rintro e ⟨he, _⟩ rfl
    exact ha (List.mem_toFinset.2 (List.mem_map_of_mem he))
  rw [← succ_targets]
  exact Digraph.search_spec hU (sum_length_targets _ edges kind)

end Along

/-! ## The two checks -/

theorem wouldCreateBlocksCycle_spec (edges : List IssueEdge) (candidate : IssueEdge) :
    ∃ found, wouldCreateBlocksCycle edges candidate = some found ∧
      (found = true ↔ candidate.kind = .blocks ∧
        ReflTransGen (Along edges candidate.kind) candidate.toRef candidate.fromRef) := by
  by_cases hkind : candidate.kind = .blocks
  · rcases closesCycle_spec edges candidate.kind candidate with ⟨found, hfound, hiff⟩
    exact ⟨found, by simpa [wouldCreateBlocksCycle, hkind] using hfound, by simp [hiff, hkind]⟩
  · exact ⟨false, by simp [wouldCreateBlocksCycle, hkind], by simp [hkind]⟩

theorem wouldCreateCycle_spec (edges : List MeshEdge) (candidate : MeshEdge) :
    ∃ found, wouldCreateCycle edges candidate = some found ∧
      (found = true ↔ candidate.kind.isSymmetric = false ∧
        ReflTransGen (Along edges candidate.kind) candidate.toRef candidate.fromRef) := by
  cases hkind : candidate.kind.isSymmetric with
  | true =>
      exact ⟨false, by simp [wouldCreateCycle, hkind], by simp⟩
  | false =>
      rcases closesCycle_spec edges candidate.kind candidate with ⟨found, hfound, hiff⟩
      exact ⟨found, by simpa [wouldCreateCycle, hkind] using hfound, by simp [hiff]⟩

theorem acyclic_addIssueEdge (edges : List IssueEdge) (d : Declaration IssueRef EdgeKind)
    (h : Digraph.Acyclic (Along edges .blocks)) :
    Digraph.Acyclic (Along (addIssueEdge edges d) .blocks) := by
  rcases addEdge_cases IssueEdge.canonical wouldCreateBlocksCycle edges d with
    hsame | ⟨candidate, _, hcheck, hadd⟩
  · rw [addIssueEdge, hsame]
    exact h
  · rw [addIssueEdge, hadd]
    refine acyclic_concat h fun hkind hreach => ?_
    rcases wouldCreateBlocksCycle_spec edges candidate with ⟨found, hfound, hiff⟩
    have hno : found = false := by simpa [hcheck] using hfound.symm
    simpa [hno] using hiff.2 ⟨hkind, hkind ▸ hreach⟩

theorem acyclic_addMeshEdge (edges : List MeshEdge) (d : Declaration MeshRef MeshEdgeKind)
    (h : ∀ kind : MeshEdgeKind, kind.isSymmetric = false → Digraph.Acyclic (Along edges kind)) :
    ∀ kind : MeshEdgeKind, kind.isSymmetric = false →
      Digraph.Acyclic (Along (addMeshEdge edges d) kind) := by
  intro kind hkind
  rcases addEdge_cases MeshEdge.canonical wouldCreateCycle edges d with
    hsame | ⟨candidate, _, hcheck, hadd⟩
  · rw [addMeshEdge, hsame]
    exact h kind hkind
  · rw [addMeshEdge, hadd]
    refine acyclic_concat (h kind hkind) fun heq hreach => ?_
    subst heq
    rcases wouldCreateCycle_spec edges candidate with ⟨found, hfound, hiff⟩
    have hno : found = false := by simpa [hcheck] using hfound.symm
    simpa [hno] using hiff.2 ⟨hkind, hreach⟩

/-! ## Issues within the mesh -/

/-- A decimal number has no `#` in it, so the last one of a reference ends the repository. -/
theorem IssueRef.toString_injective : Function.Injective IssueRef.toString := by
  intro r r' h
  have hdigit : ∀ n : Nat, '#' ∉ n.repr.toList := by
    intro n hmem
    rw [Nat.toList_repr] at hmem
    exact absurd (Nat.isDigit_of_mem_toDigits (by decide) (by decide) hmem) (by decide)
  -- Read from the right: digits up to the first `#`, then the repository, which may have more.
  have hlists : r.number.toNat.repr.toList.reverse ++ '#' :: r.repo.toList.reverse =
      r'.number.toNat.repr.toList.reverse ++ '#' :: r'.repo.toList.reverse := by
    have hreverse := congrArg (fun s : String => s.toList.reverse) h
    simpa [IssueRef.toString] using hreverse
  have hparts := append_sep_inj (by simpa using hdigit _) (by simpa using hdigit _) hlists
  have hdigits : Nat.toDigits 10 r.number.toNat = Nat.toDigits 10 r'.number.toNat := by
    simpa [Nat.toList_repr] using hparts.1
  have hnumber : r.number = r'.number := by
    apply UInt64.toNat_inj.1
    calc
      r.number.toNat = Nat.ofDigitChars 10 (Nat.toDigits 10 r.number.toNat) 0 :=
        Nat.ofDigitChars_ten_toDigits.symm
      _ = Nat.ofDigitChars 10 (Nat.toDigits 10 r'.number.toNat) 0 := by rw [hdigits]
      _ = r'.number.toNat := Nat.ofDigitChars_ten_toDigits
  have hrepo : r.repo = r'.repo := String.toList_inj.1 (List.reverse_injective hparts.2)
  cases r
  cases r'
  simp_all

theorem MeshRef.issue_injective : Function.Injective MeshRef.issue := by
  intro r r' h
  exact IssueRef.toString_injective (congrArg MeshRef.id h)

theorem MeshEdgeKind.ofEdgeKind_injective : Function.Injective MeshEdgeKind.ofEdgeKind := by
  intro k k' h
  cases k <;> cases k' <;> first | rfl | cases h

/-- An edge of the mesh between issues is the image of an issue edge of that kind. -/
theorem along_toMesh {edges : List IssueEdge} {kind : EdgeKind} {a : IssueRef} {y : MeshRef} :
    Along (edges.map IssueEdge.toMesh) (.ofEdgeKind kind) (.issue a) y ↔
      ∃ b, y = .issue b ∧ Along edges kind a b := by
  constructor
  · rintro ⟨e', he', hkind, hfrom, hto⟩
    rcases List.mem_map.1 he' with ⟨e, he, rfl⟩
    exact ⟨e.toRef, hto.symm, e, he, MeshEdgeKind.ofEdgeKind_injective hkind,
      MeshRef.issue_injective hfrom, rfl⟩
  · rintro ⟨_, rfl, e, he, rfl, rfl, rfl⟩
    exact ⟨IssueEdge.toMesh e, List.mem_map_of_mem he, rfl, rfl, rfl⟩

theorem reachable_toMesh {edges : List IssueEdge} {kind : EdgeKind} {a b : IssueRef} :
    ReflTransGen (Along (edges.map IssueEdge.toMesh) (.ofEdgeKind kind)) (.issue a) (.issue b) ↔
      ReflTransGen (Along edges kind) a b := by
  constructor
  · intro h
    -- Whatever is reached from an issue is an issue.
    have hissue : ∀ {y}, ReflTransGen (Along (edges.map IssueEdge.toMesh) (.ofEdgeKind kind))
        (.issue a) y → ∃ c, y = .issue c ∧ ReflTransGen (Along edges kind) a c := by
      intro y hy
      induction hy with
      | refl =>
          exact ⟨a, rfl, ReflTransGen.refl⟩
      | tail _ hedge ih =>
          rcases ih with ⟨c, rfl, hc⟩
          rcases along_toMesh.1 hedge with ⟨d, rfl, hd⟩
          exact ⟨d, rfl, hc.tail hd⟩
    rcases hissue h with ⟨c, hbc, hc⟩
    rwa [MeshRef.issue_injective hbc]
  · intro h
    induction h with
    | refl =>
        exact ReflTransGen.refl
    | tail _ hedge ih =>
        exact ih.tail (along_toMesh.2 ⟨_, rfl, hedge⟩)

theorem checks_agree (edges : List IssueEdge) (candidate : IssueEdge)
    (hkind : candidate.kind = .blocks) :
    wouldCreateBlocksCycle edges candidate =
      wouldCreateCycle (edges.map IssueEdge.toMesh) candidate.toMesh := by
  rcases wouldCreateBlocksCycle_spec edges candidate with ⟨found, hfound, hiff⟩
  rcases wouldCreateCycle_spec (edges.map IssueEdge.toMesh) candidate.toMesh
    with ⟨found', hfound', hiff'⟩
  have hsymm : candidate.toMesh.kind.isSymmetric = false := by
    simp [IssueEdge.toMesh, hkind, MeshEdgeKind.ofEdgeKind, MeshEdgeKind.isSymmetric]
  have hsame : found = true ↔ found' = true := by
    rw [hiff, hiff', and_iff_right hkind, and_iff_right hsymm]
    exact reachable_toMesh.symm
  rw [hfound, hfound', Bool.eq_iff_iff.2 hsame]

/-! ## Every list that is built -/

/-- The `blocks` edges of every issue graph and the edges of each kind but the symmetric one of every mesh
graph are acyclic; on any list each check answers, and answers yes exactly when its candidate is of a
kind it looks at and the candidate's source is reachable from its target along edges of that kind; and on
`blocks` edges the two checks agree. -/
theorem edges_stay_acyclic :
    (∀ l : List (Declaration IssueRef EdgeKind),
      Digraph.Acyclic (Along (after addIssueEdge [] l) .blocks)) ∧
    (∀ (l : List (Declaration MeshRef MeshEdgeKind)) (kind : MeshEdgeKind),
      kind.isSymmetric = false → Digraph.Acyclic (Along (after addMeshEdge [] l) kind)) ∧
    (∀ (edges : List IssueEdge) (candidate : IssueEdge),
      ∃ found, wouldCreateBlocksCycle edges candidate = some found ∧
        (found = true ↔ candidate.kind = .blocks ∧
          ReflTransGen (Along edges candidate.kind) candidate.toRef candidate.fromRef)) ∧
    (∀ (edges : List MeshEdge) (candidate : MeshEdge),
      ∃ found, wouldCreateCycle edges candidate = some found ∧
        (found = true ↔ candidate.kind.isSymmetric = false ∧
          ReflTransGen (Along edges candidate.kind) candidate.toRef candidate.fromRef)) ∧
    ∀ (edges : List IssueEdge) (candidate : IssueEdge), candidate.kind = .blocks →
      wouldCreateBlocksCycle edges candidate =
        wouldCreateCycle (edges.map IssueEdge.toMesh) candidate.toMesh := by
  have hempty : ∀ {ρ κ : Type} (kind : κ), Digraph.Acyclic (Along ([] : List (Edge ρ κ)) kind) := by
    intro ρ κ kind a hcycle
    rcases TransGen.head'_iff.1 hcycle with ⟨b, ⟨e, he, _⟩, _⟩
    simp at he
  refine ⟨?_, ?_, wouldCreateBlocksCycle_spec, wouldCreateCycle_spec, checks_agree⟩
  · intro l
    exact (always_of_step acyclic_addIssueEdge (hempty _) l).final
  · intro l
    exact (always_of_step acyclic_addMeshEdge (fun kind _ => hempty kind) l).final

def epic : IssueRef := ⟨"o/epic", 1⟩

def story : IssueRef := ⟨"o/story", 2⟩

/-- An epic is the parent of a story, and their nodes are related: each check answers no for the edge
back, of a kind it does not look at. -/
theorem unchecked_kinds :
    ¬ ((∀ (edges : List IssueEdge) (d : Declaration IssueRef EdgeKind) (candidate : IssueEdge),
        IssueEdge.canonical d = .ok candidate → ∃ found,
          wouldCreateBlocksCycle edges candidate = some found ∧
          (found = true ↔
            ReflTransGen (Along edges candidate.kind) candidate.toRef candidate.fromRef)) ∨
      (∀ (edges : List MeshEdge) (d : Declaration MeshRef MeshEdgeKind) (candidate : MeshEdge),
        MeshEdge.canonical d = .ok candidate → ∃ found,
          wouldCreateCycle edges candidate = some found ∧
          (found = true ↔
            ReflTransGen (Along edges candidate.kind) candidate.toRef candidate.fromRef))) := by
  rintro (h | h)
  · -- `parent` is no `blocks` edge, so the search is not made.
    rcases h [⟨"1", epic, .parent, story, "u", 0⟩] ⟨story, .parent, epic, "u", "2", 0⟩
      ⟨"2", story, .parent, epic, "u", 0⟩ (by decide) with ⟨found, hfound, hiff⟩
    have hreach := hiff.2 (ReflTransGen.single ⟨_, List.mem_singleton_self _, rfl, rfl, rfl⟩)
    rw [hreach] at hfound
    exact absurd hfound (by decide)
  · -- `relates` is symmetric, so the search is not made.
    rcases h [⟨"1", .issue epic, .relates, .issue story, "u", 0⟩]
      ⟨.issue story, .relates, .issue epic, "u", "2", 0⟩
      ⟨"2", .issue story, .relates, .issue epic, "u", 0⟩ (by decide +kernel)
      with ⟨found, hfound, hiff⟩
    have hreach := hiff.2 (ReflTransGen.single ⟨_, List.mem_singleton_self _, rfl, rfl, rfl⟩)
    rw [hreach] at hfound
    exact absurd hfound (by decide +kernel)

end IssueGraph
end Aivcs
