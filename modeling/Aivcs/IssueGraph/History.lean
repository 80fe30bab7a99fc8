import Aivcs.IssueGraph.Branches
import Aivcs.Lib.Run

/-!
# IssueGraph.History — branches keep a consistent history

`ParentsIn known commits` walks a list of commits with the ids that came before: each commit has no parent
or one of them.  In this form the splice of `semanticMerge` is one induction along the source, with the ids
of the target known from the start (`ParentsIn.splice`).

That a merge brings in every commit of the source, and not only its ids, rests on `Consistent.agree`: an id
stands for one commit throughout the graph.

* `history_consistent` — along every run whose commit ids are new, the current branch exists, the ids of a
  branch are distinct and parents come first, and a merge appends, completes, touches one branch and is
  idempotent.
-/

namespace Aivcs
namespace IssueGraph

open Aivcs.Lib Aivcs.State

variable {Value : Type}

/-! ## The order of a branch -/

/-- Every commit has no parent, or one that is known or comes before it. -/
def ParentsIn (known : List Uuid) : List (IssueCommit Value) → Prop
  | [] => True
  | c :: rest =>
      (c.parentCommitId = none ∨ ∃ p ∈ known, c.parentCommitId = some p) ∧
        ParentsIn (known ++ [c.id]) rest

section Parents

variable {known : List Uuid} {l l' : List (IssueCommit Value)}

theorem parentsIn_append :
    ParentsIn known (l ++ l') ↔
      ParentsIn known l ∧ ParentsIn (known ++ l.map IssueCommit.id) l' := by
  induction l generalizing known with
  | nil =>
      simp [ParentsIn]
  | cons c l ih =>
      simp [ParentsIn, ih, and_assoc]

theorem ParentsIn.split (h : ParentsIn known l) {pre post : List (IssueCommit Value)}
    {c : IssueCommit Value} (hl : l = pre ++ c :: post) :
    c.parentCommitId = none ∨
      ∃ p ∈ known ++ pre.map IssueCommit.id, c.parentCommitId = some p := by
  rw [hl, parentsIn_append] at h
  exact h.2.1

/-- What is left of a list after the commits with ids in `old` are taken out keeps its order where
`old` is known. -/
theorem ParentsIn.splice {old known' : List Uuid} (h : ParentsIn known l)
    (hknown : ∀ p ∈ known, p ∈ known') (hold : ∀ p ∈ old, p ∈ known') :
    ParentsIn known' (l.filter fun c => c.id ∉ old) := by
  -- A commit that is taken out is in `old`, and so known anyway: only `known` has to grow.
  induction l generalizing known known' with
  | nil =>
      trivial
  | cons c l ih =>
      rcases h with ⟨hparent, hrest⟩
      by_cases hc : c.id ∈ old
      · have hskip : (c :: l).filter (fun c => c.id ∉ old) = l.filter fun c => c.id ∉ old := by
          simp [hc]
        rw [hskip]
        refine ih hrest ?_ hold
        intro p hp
        rcases List.mem_append.1 hp with hp | hp
        · exact hknown p hp
        · exact hold p (by simpa [List.mem_singleton.1 hp] using hc)
      · have hkeep : (c :: l).filter (fun c => c.id ∉ old) =
            c :: l.filter fun c => c.id ∉ old := by
          simp [hc]
        rw [hkeep]
        refine ⟨?_, ih hrest ?_ fun p hp => List.mem_append_left _ (hold p hp)⟩
        · rcases hparent with hnone | ⟨p, hp, hsome⟩
          · exact .inl hnone
          · exact .inr ⟨p, hknown p hp, hsome⟩
        · intro p hp
          rcases List.mem_append.1 hp with hp | hp
          · exact List.mem_append_left _ (hknown p hp)
          · exact List.mem_append_right _ hp

end Parents

/-- The commits of a branch: ids are distinct, parents come first. -/
structure Ordered (commits : List (IssueCommit Value)) : Prop where
  nodup : (commits.map IssueCommit.id).Nodup
  parents : ParentsIn [] commits

section Ordered

variable {commits source : List (IssueCommit Value)} {c : IssueCommit Value}

theorem ordered_nil : Ordered ([] : List (IssueCommit Value)) :=
  ⟨List.nodup_nil, trivial⟩

/-- A commit on top of the last one. -/
theorem Ordered.concat (h : Ordered commits) (hnew : c.id ∉ commits.map IssueCommit.id)
    (hparent : c.parentCommitId = commits.getLast?.map IssueCommit.id) :
    Ordered (commits ++ [c]) := by
  refine ⟨?_, parentsIn_append.2 ⟨h.parents, ?_, trivial⟩⟩
  · rw [List.map_append, List.nodup_append]
    refine ⟨h.nodup, List.nodup_singleton _, ?_⟩
    rintro p hp _ hlast rfl
    exact hnew (by simpa [List.mem_singleton.1 hlast] using hp)
  · rw [hparent]
    -- The first commit of an empty branch has no parent.
    cases hlast : commits.getLast? with
    | none =>
        exact .inl rfl
    | some p =>
        have hmem : p ∈ commits := List.mem_of_getLast? hlast
        exact .inr ⟨p.id, by simpa using ⟨p, hmem, rfl⟩, rfl⟩

theorem Ordered.splice (h : Ordered commits) (hsource : Ordered source) :
    Ordered (commits ++ source.filter fun c => c.id ∉ commits.map IssueCommit.id) := by
  refine ⟨?_, parentsIn_append.2 ⟨h.parents, ?_⟩⟩
  · rw [List.map_append, List.nodup_append]
    refine ⟨h.nodup, hsource.nodup.sublist (List.filter_sublist.map _), ?_⟩
    rintro p hp _ hnew rfl
    rcases List.mem_map.1 hnew with ⟨c, hc, rfl⟩
    exact (by simpa using (List.mem_filter.1 hc).2 : c.id ∉ commits.map IssueCommit.id) hp
  · exact hsource.parents.splice (by simp) (by simp)

end Ordered

/-! ## The graph -/

namespace Graph

/-- The commit is on some branch. -/
def Holds (g : Graph Value) (c : IssueCommit Value) : Prop :=
  ∃ name b, g.branches.lookup name = some b ∧ c ∈ b.commits

structure Consistent (g : Graph Value) : Prop where
  current : g.currentBranch ∈ g.branches
  ordered : ∀ name b, g.branches.lookup name = some b → Ordered b.commits
  agree : ∀ c c', g.Holds c → g.Holds c' → c.id = c'.id → c = c'

variable {g g' : Graph Value} {name : String} {b : IssueBranch Value}

theorem mem_commitIds {id : Uuid} : id ∈ g.commitIds ↔ ∃ c, g.Holds c ∧ c.id = id := by
  simp only [commitIds, Finset.mem_biUnion, Finmap.mem_keys, List.mem_toFinset, Holds]
  constructor
  · rintro ⟨name, hname, hid⟩
    rcases Finmap.mem_iff.1 hname with ⟨b, hb⟩
    rw [hb, Option.elim_some] at hid
    rcases List.mem_map.1 hid with ⟨c, hc, rfl⟩
    exact ⟨c, ⟨name, b, hb, hc⟩, rfl⟩
  · rintro ⟨c, ⟨name, b, hb, hc⟩, rfl⟩
    refine ⟨name, Finmap.mem_iff.2 ⟨b, hb⟩, ?_⟩
    rw [hb, Option.elim_some]
    exact List.mem_map_of_mem hc

/-- A branch is written whose commits are in the graph already, or new to it. -/
theorem Consistent.insert (h : g.Consistent) (hbranches : g'.branches = g.branches.insert name b)
    (hcurrent : g'.currentBranch = g.currentBranch) (hb : Ordered b.commits)
    (hnew : ∀ c ∈ b.commits, g.Holds c ∨ c.id ∉ g.commitIds) : g'.Consistent := by
  have hlookup : ∀ k, g'.branches.lookup k = if k = name then some b else g.branches.lookup k := by
    intro k
    rw [hbranches, HashMap.lookup_insert_apply]
  have hholds : ∀ {c}, g'.Holds c → c ∈ b.commits ∨ g.Holds c := by
    rintro c ⟨k, b', hb', hc⟩
    rw [hlookup k] at hb'
    split at hb'
    · obtain rfl : b = b' := by simpa using hb'
      exact .inl hc
    · exact .inr ⟨k, b', hb', hc⟩
  refine ⟨?_, ?_, ?_⟩
  · rw [hbranches, hcurrent]
    exact Finmap.mem_insert.2 (.inr h.current)
  · intro k b' hb'
    rw [hlookup k] at hb'
    split at hb'
    · obtain rfl : b = b' := by simpa using hb'
      exact hb
    · exact h.ordered k b' hb'
  · -- Two commits of one id: both of the new branch, both of the graph, or one of each.
    have hmixed : ∀ c c', c ∈ b.commits → g.Holds c' → c.id = c'.id → c = c' := by
      intro c c' hc hc' hid
      rcases hnew c hc with hold | hfresh
      · exact h.agree c c' hold hc' hid
      · exact absurd (mem_commitIds.2 ⟨c', hc', hid.symm⟩) hfresh
    intro c c' hc hc' hid
    rcases hholds hc with hc | hc
    · rcases hholds hc' with hc' | hc'
      · exact List.inj_on_of_nodup_map hb.nodup hc hc' hid
      · exact hmixed c c' hc hc' hid
    · rcases hholds hc' with hc' | hc'
      · exact (hmixed c' c hc' hc hid.symm).symm
      · exact h.agree c c' hc hc' hid

theorem consistent_new (id : Uuid) (title intent : String) (now : Timestamp) :
    (new id title intent now : Graph Value).Consistent := by
  have hlookup : ∀ name b, (new id title intent now : Graph Value).branches.lookup name = some b →
      b.commits = [] := by
    intro name b hb
    simp only [new, HashMap.lookup_insert_apply, Finmap.lookup_empty] at hb
    split at hb
    · simp [← Option.some.inj hb]
    · cases hb
  refine ⟨Finmap.mem_insert.2 (.inl rfl), ?_, ?_⟩
  · intro name b hb
    rw [hlookup name b hb]
    exact ordered_nil
  · rintro c c' ⟨name, b, hb, hc⟩
    rw [hlookup name b hb] at hc
    cases hc

/-! ## What a call does -/

theorem checkout_cases (g : Graph Value) (name : String) (now : Timestamp) :
    (∃ e, g.checkout name now = (.error e, g)) ∨
      ∃ g', g.checkout name now = (.ok (), g') ∧ g'.branches = g.branches ∧
        name ∈ g.branches ∧ g'.currentBranch = name := by
  by_cases hname : name ∈ g.branches
  · exact .inr ⟨_, if_neg (not_not.2 hname), rfl, hname, rfl⟩
  · exact .inl ⟨_, if_pos hname⟩

theorem createBranch_cases (g : Graph Value) (name : String) (now : Timestamp) :
    (∃ e, g.createBranch name now = (.error e, g)) ∨
      ∃ g', g.createBranch name now = (.ok (), g') ∧ g'.currentBranch = g.currentBranch ∧
        g'.branches = g.branches.insert name
          ⟨name, ((g.branches.lookup g.currentBranch).map IssueBranch.commits).getD []⟩ := by
  by_cases hname : name ∈ g.branches
  · exact .inl ⟨_, if_pos hname⟩
  · exact .inr ⟨_, if_neg hname, rfl, rfl⟩

theorem semanticMerge_cases (g : Graph Value) (targetBranch sourceBranch : String)
    (now : Timestamp) :
    (∃ e, g.semanticMerge targetBranch sourceBranch now = (.error e, g)) ∨
      ∃ g' target source, g.semanticMerge targetBranch sourceBranch now = (.ok (), g') ∧
        g.branches.lookup targetBranch = some target ∧
        g.branches.lookup sourceBranch = some source ∧
        g'.currentBranch = g.currentBranch ∧
        g'.branches = g.branches.insert targetBranch
          { target with commits := target.commits ++
              source.commits.filter fun c => c.id ∉ target.commits.map IssueCommit.id } := by
  cases hsource : g.branches.lookup sourceBranch with
  | none =>
      exact .inl ⟨_, by rw [semanticMerge, hsource]⟩
  | some source =>
      cases htarget : g.branches.lookup targetBranch with
      | none =>
          exact .inl ⟨_, by rw [semanticMerge, hsource, htarget]⟩
      | some target =>
          refine .inr ⟨(g.semanticMerge targetBranch sourceBranch now).2, target, source, ?_, rfl, rfl,
            ?_, ?_⟩
          · simp [semanticMerge, hsource, htarget]
          · simp [semanticMerge, hsource, htarget, addLedgerEntry]
          · simp [semanticMerge, hsource, htarget, addLedgerEntry]

/-- The parent of a new commit is the last of its branch. -/
theorem Consistent.push (h : g.Consistent) {c : IssueCommit Value} {now : Timestamp}
    (hparent : c.parentCommitId = g.latestCommit.map IssueCommit.id)
    (hfresh : c.id ∉ g.commitIds) :
    ∃ g', g.push c now = some (c.id, g') ∧ g'.Consistent := by
  rcases Finmap.mem_iff.1 h.current with ⟨b, hb⟩
  have hnew : c.id ∉ b.commits.map IssueCommit.id := by
    intro hmem
    rcases List.mem_map.1 hmem with ⟨c', hc', hid⟩
    exact hfresh (mem_commitIds.2 ⟨c', ⟨g.currentBranch, b, hb, hc'⟩, hid⟩)
  refine ⟨_, congrArg (Option.map _) hb, ?_⟩
  refine h.insert rfl rfl ((h.ordered _ b hb).concat hnew ?_) ?_
  · simpa [latestCommit, hb] using hparent
  · intro c' hc'
    rcases List.mem_append.1 hc' with hold | hlast
    · exact .inl ⟨g.currentBranch, b, hb, hold⟩
    · exact .inr (by simpa [List.mem_singleton.1 hlast] using hfresh)

theorem Consistent.createBranch (h : g.Consistent) (name : String) (now : Timestamp) :
    (g.createBranch name now).2.Consistent := by
  rcases g.createBranch_cases name now with ⟨e, he⟩ | ⟨g', hg', hcurrent, hbranches⟩
  · rwa [he]
  · rcases Finmap.mem_iff.1 h.current with ⟨b, hb⟩
    rw [hg']
    rw [hb, Option.map_some, Option.getD_some] at hbranches
    refine h.insert hbranches hcurrent (h.ordered _ b hb) ?_
    intro c hc
    exact .inl ⟨g.currentBranch, b, hb, hc⟩

theorem Consistent.checkout (h : g.Consistent) (name : String) (now : Timestamp) :
    (g.checkout name now).2.Consistent := by
  rcases g.checkout_cases name now with ⟨e, he⟩ | ⟨g', hg', hbranches, hmem, hcurrent⟩
  · rwa [he]
  · rw [hg']
    refine ⟨?_, ?_, ?_⟩
    · rwa [hbranches, hcurrent]
    · rw [hbranches]
      exact h.ordered
    · simpa only [Holds, hbranches] using h.agree

theorem Consistent.semanticMerge (h : g.Consistent) (targetBranch sourceBranch : String)
    (now : Timestamp) : (g.semanticMerge targetBranch sourceBranch now).2.Consistent := by
  rcases g.semanticMerge_cases targetBranch sourceBranch now with
    ⟨e, he⟩ | ⟨g', target, source, hg', htarget, hsource, hcurrent, hbranches⟩
  · rwa [he]
  · rw [hg']
    refine h.insert hbranches hcurrent ((h.ordered _ _ htarget).splice (h.ordered _ _ hsource)) ?_
    intro c hc
    rcases List.mem_append.1 hc with hc | hc
    · exact .inl ⟨targetBranch, target, htarget, hc⟩
    · exact .inl ⟨sourceBranch, source, hsource, List.mem_of_mem_filter hc⟩

theorem Consistent.step (h : g.Consistent) {i : GraphCall Value} (hfresh : g.FreshId i) :
    (g.step i).Consistent := by
  cases i with
  | createBranch name now =>
      exact h.createBranch name now
  | checkout branchName now =>
      exact h.checkout branchName now
  | commit message createdBy executionState diffSummary newId now =>
      have hcommit : ∃ g', g.commit message createdBy executionState diffSummary newId now =
          some (newId, g') ∧ g'.Consistent := by
        apply h.push rfl
        exact hfresh
      rcases hcommit with ⟨g', hg, hg'⟩
      rw [Graph.step, hg]
      exact hg'
  | commitDetailed commit now =>
      have hcommit : ∃ g', g.commitDetailed commit now = some (commit.id, g') ∧ g'.Consistent := by
        apply h.push rfl
        exact hfresh
      rcases hcommit with ⟨g', hg, hg'⟩
      rw [Graph.step, hg]
      exact hg'
  | semanticMerge targetBranch sourceBranch now =>
      exact h.semanticMerge targetBranch sourceBranch now

/-! ## Merging -/

/-- What a merge of `sourceBranch` into `targetBranch` that led to `g'` has done. -/
structure Merged (g g' : Graph Value) (targetBranch sourceBranch : String) : Prop where
  /-- The target keeps its commits and has all of the source. -/
  target : ∃ target source target', g.branches.lookup targetBranch = some target ∧
    g.branches.lookup sourceBranch = some source ∧
    g'.branches.lookup targetBranch = some target' ∧
    target.commits <+: target'.commits ∧ ∀ c ∈ source.commits, c ∈ target'.commits
  others : ∀ name, name ≠ targetBranch → g'.branches.lookup name = g.branches.lookup name
  again : ∀ now, ∃ g'', g'.semanticMerge targetBranch sourceBranch now = (.ok (), g'') ∧
    g''.branches = g'.branches

/-- Writing a branch that is there changes nothing. -/
theorem insert_lookup {branches : HashMap String (IssueBranch Value)}
    (h : branches.lookup name = some b) : branches.insert name b = branches := by
  apply Finmap.ext_lookup
  intro k
  rw [HashMap.lookup_insert_apply]
  split
  · next hk =>
    rw [hk, h]
  · rfl

/-- Merging a branch whose ids the target has already changes no branch. -/
theorem semanticMerge_of_ids {targetBranch sourceBranch : String}
    {target source : IssueBranch Value} (htarget : g.branches.lookup targetBranch = some target)
    (hsource : g.branches.lookup sourceBranch = some source)
    (hids : ∀ c ∈ source.commits, c.id ∈ target.commits.map IssueCommit.id) (now : Timestamp) :
    ∃ g', g.semanticMerge targetBranch sourceBranch now = (.ok (), g') ∧
      g'.branches = g.branches := by
  rcases g.semanticMerge_cases targetBranch sourceBranch now with
    ⟨e, he⟩ | ⟨g', target', source', hg', htarget', hsource', _, hbranches⟩
  · simp [semanticMerge, htarget, hsource] at he
  · obtain rfl : target = target' := Option.some.inj (htarget.symm.trans htarget')
    obtain rfl : source = source' := Option.some.inj (hsource.symm.trans hsource')
    have hnone : (source.commits.filter fun c => c.id ∉ target.commits.map IssueCommit.id) = [] := by
      rw [List.filter_eq_nil_iff]
      intro c hc
      simpa using hids c hc
    rw [hnone, List.append_nil, insert_lookup htarget] at hbranches
    exact ⟨g', hg', hbranches⟩

theorem Consistent.merged (h : g.Consistent) {targetBranch sourceBranch : String}
    {now : Timestamp} (hmerge : g.semanticMerge targetBranch sourceBranch now = (.ok (), g')) :
    Merged g g' targetBranch sourceBranch := by
  rcases g.semanticMerge_cases targetBranch sourceBranch now with
    ⟨e, he⟩ | ⟨_, target, source, hg', htarget, hsource, _, hbranches⟩
  · simp [he] at hmerge
  · obtain rfl : g' = _ := (Prod.mk.inj (hmerge.symm.trans hg')).2
    have hlookup := fun name => (congrArg (Finmap.lookup name) hbranches).trans
      (HashMap.lookup_insert_apply g.branches targetBranch name _)
    have hmem : ∀ c ∈ source.commits, c ∈ target.commits ++
        source.commits.filter fun c => c.id ∉ target.commits.map IssueCommit.id := by
      intro c hc
      by_cases hid : c.id ∈ target.commits.map IssueCommit.id
      · -- The target has a commit of this id, and it is this one.
        rcases List.mem_map.1 hid with ⟨c', hc', hid'⟩
        have hsame := h.agree c' c ⟨targetBranch, target, htarget, hc'⟩
          ⟨sourceBranch, source, hsource, hc⟩ hid'
        exact List.mem_append_left _ (hsame ▸ hc')
      · exact List.mem_append_right _ (List.mem_filter.2 ⟨hc, by simpa using hid⟩)
    have htarget' := (hlookup targetBranch).trans (if_pos rfl)
    refine ⟨⟨target, source, _, htarget, hsource, htarget', List.prefix_append _ _, hmem⟩, ?_, ?_⟩
    · intro name hname
      rw [hlookup name, if_neg hname]
    · intro now'
      by_cases hname : sourceBranch = targetBranch
      · subst hname
        exact semanticMerge_of_ids htarget' htarget' (fun c hc => List.mem_map_of_mem hc) now'
      · have hsource' := (hlookup sourceBranch).trans ((if_neg hname).trans hsource)
        exact semanticMerge_of_ids htarget' hsource'
          (fun c hc => List.mem_map_of_mem (hmem c hc)) now'

/-- A call that fails leaves the graph as it was. -/
theorem failed_unchanged (g : Graph Value) :
    (∀ name now e g', g.checkout name now = (.error e, g') → g' = g) ∧
      (∀ name now e g', g.createBranch name now = (.error e, g') → g' = g) ∧
      ∀ targetBranch sourceBranch now e g',
        g.semanticMerge targetBranch sourceBranch now = (.error e, g') → g' = g := by
  refine ⟨?_, ?_, ?_⟩
  · intro name now e g' hcall
    rcases g.checkout_cases name now with ⟨e', he'⟩ | ⟨_, hok, _⟩
    · exact (Prod.mk.inj (hcall.symm.trans he')).2
    · cases hcall.symm.trans hok
  · intro name now e g' hcall
    rcases g.createBranch_cases name now with ⟨e', he'⟩ | ⟨_, hok, _⟩
    · exact (Prod.mk.inj (hcall.symm.trans he')).2
    · cases hcall.symm.trans hok
  · intro targetBranch sourceBranch now e g' hcall
    rcases g.semanticMerge_cases targetBranch sourceBranch now with ⟨e', he'⟩ | ⟨_, _, _, hok, _⟩
    · exact (Prod.mk.inj (hcall.symm.trans he')).2
    · cases hcall.symm.trans hok

end Graph

/-- Along every run whose commit ids are new: the current branch exists, the ids of a branch are distinct,
a parent is the id of an earlier commit of the branch, and a merge keeps the target as a prefix, completes
it with the source, leaves the other branches and changes nothing when repeated; a call that fails changes
nothing at all. -/
theorem history_consistent (id : Uuid) (title intent : String) (now : Timestamp)
    (l : List (GraphCall Value))
    (hfresh : EachStep Graph.step Graph.FreshId (Graph.new id title intent now) l) :
    Always Graph.step (fun g =>
      g.currentBranch ∈ g.branches ∧
      (∀ name b, g.branches.lookup name = some b →
        (b.commits.map IssueCommit.id).Nodup ∧
        ∀ pre c post, b.commits = pre ++ c :: post →
          c.parentCommitId = none ∨ ∃ p ∈ pre, c.parentCommitId = some p.id) ∧
      (∀ targetBranch sourceBranch now g',
        g.semanticMerge targetBranch sourceBranch now = (.ok (), g') →
        Graph.Merged g g' targetBranch sourceBranch) ∧
      (∀ name now e g', g.checkout name now = (.error e, g') → g' = g) ∧
      (∀ name now e g', g.createBranch name now = (.error e, g') → g' = g) ∧
      ∀ targetBranch sourceBranch now e g',
        g.semanticMerge targetBranch sourceBranch now = (.error e, g') → g' = g)
      (Graph.new id title intent now) l := by
  have hrun : Always Graph.step Graph.Consistent (Graph.new id title intent now) l :=
    always_of_eachStep (fun _ _ h hnew => h.step hnew) (Graph.consistent_new id title intent now)
      hfresh
  intro pre hpre
  have hg := hrun pre hpre
  refine ⟨hg.current, ?_, fun _ _ _ _ hmerge => hg.merged hmerge, Graph.failed_unchanged _⟩
  intro name b hb
  refine ⟨(hg.ordered name b hb).nodup, ?_⟩
  intro pre c post hsplit
  rcases (hg.ordered name b hb).parents.split hsplit with hnone | ⟨p, hp, hsome⟩
  · exact .inl hnone
  · rcases List.mem_map.1 (by simpa using hp) with ⟨c', hc', rfl⟩
    exact .inr ⟨c', hc', hsome⟩

/-- Two branches that diverge, and the merge of the second into the first. -/
def diverging : List (GraphCall String) :=
  [.commit "plan" "agent" none none "c1" 1, .createBranch "dev" 2, .commit "fix" "agent" none none "c2" 3,
    .checkout "dev" 4, .commit "spike" "agent" none none "c3" 5, .semanticMerge "main" "dev" 6]

theorem diverging_fresh :
    EachStep Graph.step Graph.FreshId (Graph.new "i" "title" "intent" 0) diverging := by
  simp only [diverging, eachStep_cons, eachStep_nil, Graph.FreshId, and_true, true_and]
  decide +kernel

theorem diverging_consistent :
    (∃ b, (after Graph.step (Graph.new "i" "title" "intent" 0) diverging).branches.lookup "main" =
      some b ∧ b.commits.map IssueCommit.id = ["c1", "c2", "c3"]) ∧
    (after Graph.step (Graph.new "i" "title" "intent" 0) diverging).currentBranch ∈
      (after Graph.step (Graph.new "i" "title" "intent" 0) diverging).branches :=
  ⟨⟨_, rfl, by decide +kernel⟩,
    (history_consistent "i" "title" "intent" 0 diverging diverging_fresh).final.1⟩

end IssueGraph
end Aivcs
