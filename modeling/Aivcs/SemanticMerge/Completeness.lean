import Aivcs.SemanticMerge.Merge

/-!
# SemanticMerge.Completeness — a merge keeps every memory and invents none

A commit has one memory under a key (`MemoryStore.keyed`), so the four lists of a difference hold every key of
the two commits once, and a synthesized memory has the content of a parent's memory under its key.

* `latest` — what a sequence of saves leaves of a commit;
* `synthesize_spec` — the synthesis of any two lists of memories;
* `synthesizeMemory_complete` — of two commits of a store that was built by saving memories.
-/

namespace Aivcs
namespace SemanticMerge

open Aivcs.Lib
open Aivcs.Domain (Number Value)
open Aivcs.State

/-! ## The difference -/

section Difference

variable {memoriesA memoriesB : List MemoryRecord}

/-- B has the key with another content. -/
def differs (memoriesB : List MemoryRecord) (memA : MemoryRecord) : Bool :=
  match memoriesB.find? fun m => m.key = memA.key with
  | some memB => memA.content ≠ memB.content
  | none => false

theorem find?_isSome_iff (memoriesB : List MemoryRecord) (key : String) :
    (memoriesB.find? fun m => m.key = key).isSome ↔ key ∈ memoriesB.map MemoryRecord.key := by
  simp [List.find?_isSome]

/-- The keys in conflict. -/
theorem map_key_conflicts (memoriesA memoriesB : List MemoryRecord) :
    (diffMemories memoriesA memoriesB).conflicts.map MemoryConflict.key =
      (memoriesA.filter (differs memoriesB)).map MemoryRecord.key := by
  unfold diffMemories
  induction memoriesA with
  | nil =>
      rfl
  | cons memA memoriesA ih =>
      dsimp only at ih ⊢
      rw [List.filterMap_cons, List.filter_cons, differs]
      cases memoriesB.find? fun m => m.key = memA.key with
      | none =>
          exact ih
      | some memB =>
          by_cases hcontent : memA.content = memB.content
          · simpa [hcontent] using ih
          · simpa [hcontent] using ih

/-- A memory of A is only in A, identical in both or in conflict. -/
theorem perm_keys (memoriesA memoriesB : List MemoryRecord) :
    let delta := diffMemories memoriesA memoriesB
    (delta.onlyInA.map MemoryRecord.key ++ (delta.identical.map MemoryRecord.key ++
      delta.conflicts.map MemoryConflict.key)).Perm (memoriesA.map MemoryRecord.key) := by
  intro delta
  have honly (m : MemoryRecord) : decide (m.key ∉ memoriesB.map MemoryRecord.key) =
      (memoriesB.find? fun m' => m'.key = m.key).isNone := by
    rw [Bool.eq_iff_iff, decide_eq_true_iff, ← find?_isSome_iff, Option.not_isSome_iff_eq_none,
      Option.isNone_iff_eq_none]
  -- The memories whose key B has too split into those with the same content and the others.
  have hidentical : delta.identical =
      (memoriesA.filter fun m => !decide (m.key ∉ memoriesB.map MemoryRecord.key)).filter fun m =>
        !differs memoriesB m := by
    rw [List.filter_filter]
    refine List.filter_congr fun m _ => ?_
    rw [honly, differs]
    cases memoriesB.find? fun m' => m'.key = m.key <;> simp
  have hconflicts : memoriesA.filter (differs memoriesB) =
      (memoriesA.filter fun m => !decide (m.key ∉ memoriesB.map MemoryRecord.key)).filter
        (differs memoriesB) := by
    rw [List.filter_filter]
    refine List.filter_congr fun m _ => ?_
    rw [honly, differs]
    cases memoriesB.find? fun m' => m'.key = m.key <;> simp
  rw [map_key_conflicts, hidentical, hconflicts, ← List.map_append, ← List.map_append]
  refine List.Perm.map _ ?_
  have hshared := List.filter_append_perm (fun m => !differs memoriesB m)
    (memoriesA.filter fun m => !decide (m.key ∉ memoriesB.map MemoryRecord.key))
  simp only [Bool.not_not] at hshared
  exact (hshared.append_left _).trans (List.filter_append_perm _ memoriesA)

/-- Every record of a difference is one of a parent, and the two of a conflict have its key. -/
theorem conflict_spec {conflict : MemoryConflict}
    (h : conflict ∈ (diffMemories memoriesA memoriesB).conflicts) :
    (conflict.memoryA ∈ memoriesA ∧ conflict.memoryA.key = conflict.key) ∧
      conflict.memoryB ∈ memoriesB ∧ conflict.memoryB.key = conflict.key := by
  obtain ⟨memA, hmemA, hconflict⟩ := List.mem_filterMap.1 h
  cases hfind : memoriesB.find? fun m => m.key = memA.key with
  | none =>
      simp [hfind] at hconflict
  | some memB =>
      simp only [hfind] at hconflict
      split at hconflict
      · obtain rfl := Option.some.inj hconflict
        have hkey := List.find?_some hfind
        exact ⟨⟨hmemA, rfl⟩, List.mem_of_find?_eq_some hfind, of_decide_eq_true hkey⟩
      · exact absurd hconflict (Option.some_ne_none _).symm

end Difference

/-! ## The synthesis -/

section Synthesis

variable {env : Env} {commitA commitB newCommitId : String} {memoriesA memoriesB : List MemoryRecord}

theorem resolvedMemory_content (now : Timestamp) (conflict : MemoryConflict) :
    (resolvedMemory env now commitA commitB newCommitId conflict).content =
      (if env.favorsA conflict then conflict.memoryA else conflict.memoryB).content :=
  rfl

/-- A record of the synthesis has the content of a record of a parent under the same key. -/
theorem content_of_mem_synthesize {m : MemoryRecord}
    (hm : m ∈ synthesize env commitA commitB newCommitId (diffMemories memoriesA memoriesB)) :
    m.commitId = newCommitId ∧
      ∃ r, (r ∈ memoriesA ∨ r ∈ memoriesB) ∧ r.key = m.key ∧ m.content = r.content := by
  simp only [synthesize, List.mem_append, List.mem_map] at hm
  obtain ((⟨r, hr, rfl⟩ | ⟨r, hr, rfl⟩) | ⟨r, hr, rfl⟩) | ⟨⟨conflict, i⟩, hx, rfl⟩ := hm
  · exact ⟨rfl, r, .inl (List.mem_of_mem_filter hr), rfl, rfl⟩
  · exact ⟨rfl, r, .inr (List.mem_of_mem_filter hr), rfl, rfl⟩
  · exact ⟨rfl, r, .inl (List.mem_of_mem_filter hr), rfl, rfl⟩
  · obtain ⟨⟨hA, hkeyA⟩, hB, hkeyB⟩ := conflict_spec (List.fst_mem_of_mem_zipIdx hx)
    refine ⟨rfl, ?_⟩
    -- the content is the winner's
    by_cases hwins : env.favorsA conflict = true
    · exact ⟨conflict.memoryA, .inl hA, hkeyA, by rw [resolvedMemory_content, if_pos hwins]⟩
    · exact ⟨conflict.memoryB, .inr hB, hkeyB, by rw [resolvedMemory_content, if_neg hwins]⟩

/-- The keys of the synthesis are A's and those that only B has. -/
theorem perm_keys_synthesize :
    ((synthesize env commitA commitB newCommitId (diffMemories memoriesA memoriesB)).map
        MemoryRecord.key).Perm
      (memoriesA.map MemoryRecord.key ++ (memoriesB.map MemoryRecord.key).filter fun key =>
        key ∉ memoriesA.map MemoryRecord.key) := by
  have htaken (l : List MemoryRecord) :
      (l.map (taken newCommitId)).map MemoryRecord.key = l.map MemoryRecord.key := by
    rw [List.map_map]
    rfl
  have hresolved (l : List MemoryConflict) :
      (l.zipIdx.map fun x => resolvedMemory env (env.now x.2) commitA commitB newCommitId x.1).map
        MemoryRecord.key = l.map MemoryConflict.key := by
    calc _ = (l.zipIdx.map Prod.fst).map MemoryConflict.key := by
          rw [List.map_map, List.map_map]
          rfl
      _ = l.map MemoryConflict.key := by rw [List.zipIdx_map_fst]
  -- What is only in `B` is chosen by its key alone.
  have honlyB : (diffMemories memoriesA memoriesB).onlyInB.map MemoryRecord.key =
      (memoriesB.map MemoryRecord.key).filter fun key => key ∉ memoriesA.map MemoryRecord.key := by
    rw [List.filter_map]
    rfl
  rw [synthesize, List.map_append, List.map_append, List.map_append, htaken, htaken, htaken, hresolved,
    honlyB, List.append_assoc]
  have hkeys := perm_keys memoriesA memoriesB
  refine List.Perm.trans ?_ (hkeys.append_right _)
  rw [List.append_assoc, List.append_assoc]
  exact List.perm_append_comm.append_left _

/-- No two records of a synthesis have the same key. -/
theorem nodup_keys_synthesizeMemory (env : Env) (store : MemoryStore)
    (commitA commitB newCommitId : String) :
    ((synthesizeMemory env store commitA commitB newCommitId).map MemoryRecord.key).Nodup := by
  rw [synthesizeMemory, diffMemoryVectors, perm_keys_synthesize.nodup_iff]
  refine (MemoryStore.nodup_getMemories _ _ _).append
    ((MemoryStore.nodup_getMemories _ _ _).filter _) fun key hA hB => ?_
  exact of_decide_eq_true (List.mem_filter.1 hB).2 hA

theorem mem_keys_synthesizeMemory (env : Env) (store : MemoryStore)
    (commitA commitB newCommitId key : String) :
    key ∈ (synthesizeMemory env store commitA commitB newCommitId).map MemoryRecord.key ↔
      key ∈ (store.getMemories (env.order 0) commitA).map MemoryRecord.key ∨
        key ∈ (store.getMemories (env.order 1) commitB).map MemoryRecord.key := by
  rw [synthesizeMemory, diffMemoryVectors, perm_keys_synthesize.mem_iff, List.mem_append,
    List.mem_filter, decide_eq_true_iff]
  tauto

end Synthesis

/-! ## A store built by saves -/

/-- The memory of the commit under the key that was saved last. -/
def latest (records : List MemoryRecord) (commitId key : String) : Option MemoryRecord :=
  records.reverse.find? fun m => m.commitId = commitId ∧ m.key = key

def built (records : List MemoryRecord) : MemoryStore :=
  saveMemories MemoryStore.empty records

section Built

variable {records : List MemoryRecord} {commitId key : String}

theorem latest_spec {m : MemoryRecord} (h : latest records commitId key = some m) :
    m ∈ records ∧ m.commitId = commitId ∧ m.key = key := by
  rw [latest] at h
  have hfound := List.find?_some h
  exact ⟨List.mem_reverse.1 (List.mem_of_find?_eq_some h), of_decide_eq_true hfound⟩

/-- Without a colon in it a commit id is the part of a key before the first one. -/
theorem memoryKey_inj {commitId' key' : String} (h : ':' ∉ commitId.toList) (h' : ':' ∉ commitId'.toList) :
    memoryKey commitId key = memoryKey commitId' key' ↔ commitId = commitId' ∧ key = key' := by
  constructor
  · intro heq
    have hlists := congrArg String.toList heq
    simp only [memoryKey, String.toList_append, List.append_assoc] at hlists
    obtain ⟨hcommit, hkey⟩ := append_sep_inj h h' hlists
    exact ⟨String.toList_inj.1 hcommit, String.toList_inj.1 hkey⟩
  · rintro ⟨rfl, rfl⟩
    rfl

theorem built_concat (record : MemoryRecord) :
    built (records ++ [record]) = (built records).saveMemory record := by
  rw [built, saveMemories, List.foldl_append]
  rfl

theorem exists_of_lookup_built {k : String} {m : MemoryRecord}
    (h : (built records).memories.lookup k = some m) : ∃ r ∈ records, r.stored = m := by
  induction records using List.reverseRecOn with
  | nil =>
      simp [built, saveMemories, MemoryStore.empty] at h
  | append_singleton records record ih =>
      rw [built_concat, MemoryStore.lookup_saveMemory] at h
      split at h
      · exact ⟨record, by simp, Option.some.inj h⟩
      · obtain ⟨r, hr, hstored⟩ := ih h
        exact ⟨r, List.mem_append_left _ hr, hstored⟩

/-- What is stored under a key is what was saved last. -/
theorem lookup_built (hcolon : ∀ m ∈ records, ':' ∉ m.commitId.toList) (hcommit : ':' ∉ commitId.toList) :
    (built records).memories.lookup (memoryKey commitId key) =
      (latest records commitId key).map MemoryRecord.stored := by
  induction records using List.reverseRecOn with
  | nil =>
      simp [built, saveMemories, latest, MemoryStore.empty]
  | append_singleton records record ih =>
      have hrecord := hcolon record (by simp)
      rw [built_concat, MemoryStore.lookup_saveMemory, latest, List.reverse_append, List.reverse_singleton,
        List.singleton_append, List.find?_cons, ih fun m hm => hcolon m (List.mem_append_left _ hm)]
      simp only [memoryKey_inj hcommit hrecord, eq_comm (a := commitId), eq_comm (a := key)]
      -- Either this save replaced what was there, or it was for another key.
      by_cases hlast : record.commitId = commitId ∧ record.key = key
      · rw [if_pos hlast, decide_eq_true hlast]
        rfl
      · rw [if_neg hlast, decide_eq_false hlast]
        rfl

/-- The memories of a commit are the last ones saved for it, as they are stored. -/
theorem mem_getMemories_built (hcolon : ∀ m ∈ records, ':' ∉ m.commitId.toList)
    {order : Iteration String} {m : MemoryRecord} : m ∈ (built records).getMemories order commitId ↔
      ∃ r, latest records commitId m.key = some r ∧ r.stored = m := by
  rw [MemoryStore.mem_getMemories]
  constructor
  · rintro ⟨rfl, hm⟩
    obtain ⟨r, hr, rfl⟩ := exists_of_lookup_built hm
    rw [MemoryRecord.stored_commitId, lookup_built hcolon (hcolon r hr), Option.map_eq_some_iff] at hm
    exact hm
  · rintro ⟨r, hr, rfl⟩
    obtain ⟨hmem, rfl, hkey⟩ := latest_spec hr
    refine ⟨rfl, ?_⟩
    rw [MemoryRecord.stored_commitId, lookup_built hcolon (hcolon r hmem), hr, Option.map_some]

theorem mem_keys_getMemories_built (hcolon : ∀ m ∈ records, ':' ∉ m.commitId.toList)
    {order : Iteration String} :
    key ∈ ((built records).getMemories order commitId).map MemoryRecord.key ↔
      (latest records commitId key).isSome := by
  rw [List.mem_map, Option.isSome_iff_exists]
  constructor
  · rintro ⟨m, hm, rfl⟩
    obtain ⟨r, hr, -⟩ := (mem_getMemories_built hcolon).1 hm
    exact ⟨r, hr⟩
  · rintro ⟨r, hr⟩
    have hkey := (latest_spec hr).2.2
    exact ⟨r.stored, (mem_getMemories_built hcolon).2 ⟨r, hkey ▸ hr, rfl⟩, hkey⟩

end Built

/-- A synthesis has one record for every key that either commit has and no other, under the new commit, and
its content is that of a parent: the common one, or the one of the only parent that has the key. -/
theorem synthesizeMemory_complete (env : Env) (records : List MemoryRecord)
    (hcolon : ∀ m ∈ records, ':' ∉ m.commitId.toList) (commitA commitB newCommitId : String) :
    let merged := synthesizeMemory env (built records) commitA commitB newCommitId
    (merged.map MemoryRecord.key).Nodup ∧
    (∀ key, key ∈ merged.map MemoryRecord.key ↔
      (latest records commitA key).isSome ∨ (latest records commitB key).isSome) ∧
    ∀ m ∈ merged, m.commitId = newCommitId ∧
      (∃ r, (latest records commitA m.key = some r ∨ latest records commitB m.key = some r) ∧
        m.content = r.content) ∧
      (∀ r r', latest records commitA m.key = some r → latest records commitB m.key = some r' →
        r.content = r'.content → m.content = r.content) ∧
      (∀ r, latest records commitA m.key = some r → latest records commitB m.key = none →
        m.content = r.content) ∧
      ∀ r, latest records commitA m.key = none → latest records commitB m.key = some r →
        m.content = r.content := by
  intro merged
  refine ⟨nodup_keys_synthesizeMemory _ _ _ _ _, fun key => ?_, fun m hm => ?_⟩
  · rw [mem_keys_synthesizeMemory, mem_keys_getMemories_built hcolon, mem_keys_getMemories_built hcolon]
  · obtain ⟨hcommit, r, hr, hkey, hcontent⟩ := content_of_mem_synthesize hm
    -- The parent the content came from; what is left are the three cases of who has the key.
    have hparent : ∃ r, (latest records commitA m.key = some r ∨ latest records commitB m.key = some r) ∧
        m.content = r.content := by
      rcases hr with hr | hr <;> obtain ⟨saved, hsaved, rfl⟩ := (mem_getMemories_built hcolon).1 hr
      · exact ⟨saved, .inl (hkey ▸ hsaved), hcontent⟩
      · exact ⟨saved, .inr (hkey ▸ hsaved), hcontent⟩
    refine ⟨hcommit, hparent, ?_, ?_, ?_⟩ <;> obtain ⟨saved, hsaved, hcontent⟩ := hparent
    · intro ra rb hA hB hsame
      rcases hsaved with hsaved | hsaved
      · rw [hcontent, Option.some.inj (hA.symm.trans hsaved)]
      · rw [hcontent, hsame, Option.some.inj (hB.symm.trans hsaved)]
    · intro ra hA hB
      rcases hsaved with hsaved | hsaved
      · rw [hcontent, Option.some.inj (hA.symm.trans hsaved)]
      · exact absurd (hB.symm.trans hsaved) (Option.some_ne_none _).symm
    · intro rb hA hB
      rcases hsaved with hsaved | hsaved
      · exact absurd (hA.symm.trans hsaved) (Option.some_ne_none _).symm
      · rw [hcontent, Option.some.inj (hB.symm.trans hsaved)]

/-- A memory of each branch alone, one in conflict, and one that both have alike. -/
def demoRecords : List MemoryRecord :=
  [.new 1 "main" "plan" "write the parser", .new 2 "main" "style" "short functions",
    .new 3 "fork" "style" "long functions", .new 4 "fork" "scope" "the server",
    .new 5 "main" "tests" "run them all", .new 6 "fork" "tests" "run them all"]

theorem synthesizeMemory_complete_demo :
    (∀ m ∈ demoRecords, ':' ∉ m.commitId.toList) ∧
      let merged := synthesizeMemory demoEnv (built demoRecords) "main" "fork" "merged"
      (merged.map MemoryRecord.key).Nodup ∧
      (∀ key ∈ ["plan", "style", "scope", "tests"], key ∈ merged.map MemoryRecord.key) ∧
      "notes" ∉ merged.map MemoryRecord.key ∧
      ∀ m ∈ merged, m.commitId = "merged" ∧ (m.key = "plan" → m.content = "write the parser") ∧
        (m.key = "scope" → m.content = "the server") ∧ (m.key = "tests" → m.content = "run them all") ∧
        (m.key = "style" → m.content = "short functions" ∨ m.content = "long functions") := by
  have hcolon : ∀ m ∈ demoRecords, ':' ∉ m.commitId.toList := by decide
  obtain ⟨hnodup, hkeys, hall⟩ := synthesizeMemory_complete demoEnv demoRecords hcolon "main" "fork" "merged"
  refine ⟨hcolon, hnodup, fun key hkey => (hkeys key).2 ?_, fun hnotes => ?_, fun m hm => ?_⟩
  · revert key
    decide
  · rcases (hkeys "notes").1 hnotes with h | h <;> cases h
  · obtain ⟨hcommit, ⟨r, hr, hcontent⟩, hboth, hmain, hfork⟩ := hall m hm
    refine ⟨hcommit, fun hkey => ?_, fun hkey => ?_, fun hkey => ?_, fun hkey => ?_⟩
    all_goals rw [hkey] at hr hboth hmain hfork
    · exact hmain _ rfl rfl
    · exact hfork _ rfl rfl
    · exact hboth _ _ rfl rfl rfl
    · rcases hr with hr | hr <;> cases hr
      · exact .inl hcontent
      · exact .inr hcontent

end SemanticMerge
end Aivcs
