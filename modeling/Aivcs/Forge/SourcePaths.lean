import Aivcs.Lib.Fs
import Aivcs.Lib.RelPath
import Aivcs.Forge.SourceRoundTrip

/-!
# Forge.SourcePaths — what a served archive extracts to

`preflight_source` refuses a path that leaves the extraction directory and a path that is listed twice.
It compares texts, and one place has many: `a/b`, `a//b` and `a/b/` are different to it and the same to
whoever extracts the archive, and `a` next to `a/b` is a file where a directory is needed.  So what it
accepts extracts to one tree, in whatever order, exactly when no path is another's or inside another's
once superfluous slashes are out.
-/

namespace Aivcs
namespace Forge

open Aivcs.Lib

/-! ## Safe paths -/

theorem not_atBreak_of_isSafe {path : String} (h : isSafeManifestPath path = true) :
    ¬ RelPath.AtBreak path.toList := by
  simp only [isSafeManifestPath, Bool.and_eq_true] at h
  rcases h with ⟨⟨⟨hempty, hslash⟩, -⟩, -⟩
  have hbytes : utf8 path = path.toList.flatMap String.utf8EncodeChar := by
    rw [← utf8_ofList, String.ofList_toList]
  rintro (hnil | hhead)
  · rw [hbytes, hnil] at hempty
    cases hempty
  · rcases List.head?_eq_some_iff.1 hhead with ⟨rest, hrest⟩
    rw [hbytes, hrest, List.flatMap_cons, show String.utf8EncodeChar '/' = [47] by decide] at hslash
    cases hslash

/-- A safe path has no dots among its components, so it stays below the directory it is resolved in. -/
theorem resolve_of_isSafe {path : String} (h : isSafeManifestPath path = true) :
    RelPath.resolve path = some ((RelPath.pieces path.toList).map String.ofList) := by
  have hbreak := not_atBreak_of_isSafe h
  refine RelPath.resolve_eq (fun hhead => hbreak (Or.inr hhead)) ?_
  simp only [isSafeManifestPath, Bool.and_eq_true, Bool.not_eq_true', List.any_eq_false] at h
  intro piece hpiece
  have hmem : utf8 (String.ofList piece) ∈ (utf8 path).splitOn 47 := by
    rw [splitOn_utf8]
    exact List.mem_map_of_mem hpiece
  have hdots := h.2 _ hmem
  refine ⟨?_, ?_⟩
  · rintro rfl
    exact hdots (by decide)
  · rintro rfl
    exact hdots (by decide)

theorem pieces_ne_nil_of_isSafe {path : String} (h : isSafeManifestPath path = true) :
    (RelPath.pieces path.toList).map String.ofList ≠ [] := by
  simpa using RelPath.pieces_ne_nil (not_atBreak_of_isSafe h)

/-! ## Extraction -/

/-- The file an entry is extracted to. -/
def extracted (blob : String → Bytes) (e : ManifestEntry) : FileAt :=
  { path := (RelPath.resolve e.path).getD [], content := blob e.digest, executable := e.executable }

/-- The entries name places below the extraction directory, each its own and none inside another, and
whatever their contents are, the outcome of extracting them does not depend on the order. -/
structure ExtractsUnambiguously (entries : List ManifestEntry) : Prop where
  below : ∀ e ∈ entries, ∃ place, RelPath.resolve e.path = some place ∧ place ≠ []
  distinct : entries.Pairwise fun a b => RelPath.resolve a.path ≠ RelPath.resolve b.path
  noAncestor : ∀ a ∈ entries, ∀ b ∈ entries, ∀ p q, RelPath.resolve a.path = some p →
    RelPath.resolve b.path = some q → ¬ (p <+: q ∧ p ≠ q)
  orderFree : ∀ (blob : String → Bytes) (order : List ManifestEntry), order.Perm entries →
    Fs.emptyDir.placeAll (order.map (extracted blob)) =
      Fs.emptyDir.placeAll (entries.map (extracted blob))

/-- With superfluous slashes out, neither path is the other or starts with the other and a slash. -/
def PathsApart (a b : ManifestEntry) : Prop :=
  ¬ RelPath.tidied a.path <+: RelPath.tidied b.path ∧
    ¬ RelPath.tidied b.path <+: RelPath.tidied a.path

instance : Std.Symm PathsApart where
  symm := fun _ _ h => ⟨h.2, h.1⟩

theorem incomparable_iff_pathsApart {a b : ManifestEntry} (ha : isSafeManifestPath a.path = true)
    (hb : isSafeManifestPath b.path = true) (blob : String → Bytes) :
    Incomparable (extracted blob a) (extracted blob b) ↔ PathsApart a b := by
  have hab := RelPath.tidied_prefix_iff (not_atBreak_of_isSafe ha) (not_atBreak_of_isSafe hb)
  have hba := RelPath.tidied_prefix_iff (not_atBreak_of_isSafe hb) (not_atBreak_of_isSafe ha)
  unfold Incomparable PathsApart extracted
  rw [resolve_of_isSafe ha, resolve_of_isSafe hb, hab, hba]
  rfl

section Safe

variable {entries : List ManifestEntry} (hsafe : ∀ e ∈ entries, isSafeManifestPath e.path = true)
include hsafe

/-- Entries that are apart are extracted without an error. -/
theorem placeAll_extracted (blob : String → Bytes) (hapart : entries.Pairwise PathsApart) :
    ∃ fs, Fs.emptyDir.placeAll (entries.map (extracted blob)) = (.ok (), fs) ∧
      Represents fs ((entries.map (extracted blob)).reverse ++ []) := by
  refine represents_emptyDir.placeAll ?_ (fun f hf => absurd hf List.not_mem_nil) ?_
  · intro f hf
    rcases List.mem_map.1 hf with ⟨e, he, rfl⟩
    show (RelPath.resolve e.path).getD [] ≠ []
    rw [resolve_of_isSafe (hsafe e he)]
    exact pieces_ne_nil_of_isSafe (hsafe e he)
  · rw [List.pairwise_map]
    refine hapart.imp_of_mem ?_
    intro a b ha hb hab
    exact (incomparable_iff_pathsApart (hsafe a ha) (hsafe b hb) blob).2 hab

theorem extractsUnambiguously_of_pathsApart (hapart : entries.Pairwise PathsApart) :
    ExtractsUnambiguously entries := by
  -- No entry's place is another's or inside another's.
  have hprefix : ∀ {a b : ManifestEntry}, a ∈ entries → b ∈ entries → PathsApart a b →
      ∀ p q, RelPath.resolve a.path = some p → RelPath.resolve b.path = some q → ¬ p <+: q := by
    intro a b ha hb hab p q hp hq hpre
    have hinc := (incomparable_iff_pathsApart (hsafe a ha) (hsafe b hb) (fun _ => [])).2 hab
    unfold Incomparable extracted at hinc
    rw [hp, hq] at hinc
    exact hinc.1 hpre
  refine ⟨?_, ?_, ?_, ?_⟩
  · intro e he
    exact ⟨_, resolve_of_isSafe (hsafe e he), pieces_ne_nil_of_isSafe (hsafe e he)⟩
  · refine hapart.imp_of_mem ?_
    intro a b ha hb hab heq
    have hplace := resolve_of_isSafe (hsafe a ha)
    exact hprefix ha hb hab _ _ hplace (heq ▸ hplace) List.prefix_rfl
  · rintro a ha b hb p q hp hq ⟨hpre, hne⟩
    have hab : a ≠ b := by
      rintro rfl
      exact hne (Option.some.inj (hp.symm.trans hq))
    exact hprefix ha hb (hapart.forall ha hb hab) p q hp hq hpre
  · intro blob order hperm
    have hsafe' : ∀ e ∈ order, isSafeManifestPath e.path = true :=
      fun e he => hsafe e (hperm.mem_iff.1 he)
    rcases placeAll_extracted hsafe blob hapart with ⟨fs, hrun, hfs⟩
    rcases placeAll_extracted hsafe' blob ((hperm.pairwise_iff fun h => ⟨h.2, h.1⟩).2 hapart) with
      ⟨fs', hrun', hfs'⟩
    have hfiles : ((order.map (extracted blob)).reverse ++ []).Perm
        ((entries.map (extracted blob)).reverse ++ []) := by
      rw [List.append_nil, List.append_nil]
      exact (List.reverse_perm _).trans ((hperm.map _).trans (List.reverse_perm _).symm)
    rw [hrun, hrun', hfs'.eq_of_perm hfs hfiles]

theorem pathsApart_of_extractsUnambiguously (h : ExtractsUnambiguously entries) :
    entries.Pairwise PathsApart := by
  have hapart : ∀ {a b : ManifestEntry}, a ∈ entries → b ∈ entries →
      RelPath.resolve a.path ≠ RelPath.resolve b.path →
      ¬ RelPath.tidied a.path <+: RelPath.tidied b.path := by
    intro a b ha hb hne htidied
    have hpre := (RelPath.tidied_prefix_iff (not_atBreak_of_isSafe (hsafe a ha))
      (not_atBreak_of_isSafe (hsafe b hb))).1 htidied
    have hpa := resolve_of_isSafe (hsafe a ha)
    have hpb := resolve_of_isSafe (hsafe b hb)
    refine h.noAncestor a ha b hb _ _ hpa hpb ⟨hpre, fun heq => hne ?_⟩
    rw [hpa, hpb, heq]
  refine h.distinct.imp_of_mem ?_
  intro a b ha hb hne
  exact ⟨hapart ha hb hne, hapart hb ha (Ne.symm hne)⟩

end Safe

/-- What the preflight accepts extracts to one tree if and only if, with superfluous slashes out, no
path of the manifest is another's or a directory of another's. -/
theorem extracts_unambiguously_iff (D : Deployment) (commit : CommitRecord)
    (entries : List ManifestEntry) (hflight : preflightSource D commit = .ok entries) :
    ExtractsUnambiguously entries ↔ commit.manifest.Pairwise PathsApart := by
  rcases preflightSource_ok hflight with ⟨rfl, hok⟩
  rw [← (sortByPath_perm commit.manifest).pairwise_iff fun h => ⟨h.2, h.1⟩]
  exact ⟨pathsApart_of_extractsUnambiguously hok.safe, extractsUnambiguously_of_pathsApart hok.safe⟩

theorem scriptCommit_extracts :
    preflightSource (.ofTable scriptDigests) scriptCommit = .ok (sortByPath scriptCommit.manifest) ∧
      ExtractsUnambiguously (sortByPath scriptCommit.manifest) := by
  have hflight : preflightSource (.ofTable scriptDigests) scriptCommit =
      .ok (sortByPath scriptCommit.manifest) := by
    decide +kernel
  refine ⟨hflight, (extracts_unambiguously_iff _ _ _ hflight).2 ?_⟩
  unfold PathsApart
  decide +kernel

/-- Two contents for the one file `a/b`. -/
def twoSpellings : CommitRecord :=
  { scriptCommit with
    manifest :=
      [{ path := "a/b", executable := false, size := 0
         digest := "e3b0c44298fc1c149afbf4c8996fb92427ae41e4649b934ca495991b7852b855" },
        { path := "a//b", executable := true, size := 10
          digest := "a8076d3d28d21e02012b20eaf7dbf75409a6277134439025f282e368e3305abf" }] }

/-- The preflight accepts them: the texts are different. -/
theorem twoSpellings_accepted :
    ¬ ∀ (D : Deployment) (commit : CommitRecord) (entries : List ManifestEntry),
      preflightSource D commit = .ok entries → ExtractsUnambiguously entries := by
  intro h
  have hflight : preflightSource (.ofTable scriptDigests) twoSpellings =
      .ok (sortByPath twoSpellings.manifest) := by
    decide +kernel
  have hapart := pathsApart_of_extractsUnambiguously (preflightSource_ok hflight).2.safe
    (h _ _ _ hflight)
  unfold PathsApart at hapart
  revert hapart
  decide +kernel

end Forge
end Aivcs
