import Aivcs.MultiRepo.ExecutionPlan
import Aivcs.MultiRepo.Sequencer

/-!
# MultiRepo.Sequencing — no release past a failed upstream

The items of a plan are taken in the topological order of the graph.  `SequenceInv` is what holds
after any number of them: every one taken is in exactly one of the three lists, the calls of
`release` are those of the succeeded and failed ones in that order, and the skip set holds all that
depends on a failed one.  Nothing is assumed of the releaser and the ledger: a trace may carry any
answers.
-/

namespace Aivcs
namespace MultiRepo

open Aivcs.Lib
open Aivcs.State
open Relation
open RepoDependencyGraph

variable {g : RepoDependencyGraph} {orders : String → HashOrder} {runId : RunId}

/-- The calls and answers of an execution. -/
abbrev SequencerTrace : Type :=
  List ((op : SequencerOp) × op.Ans)

/-- The repos `release` was called for, in order. -/
def releasedIn (tr : SequencerTrace) : List String :=
  tr.filterMap fun call =>
    match call.1 with
    | .release repoId _ _ _ => some repoId
    | _ => none

theorem releasedIn_append (tr tr' : SequencerTrace) :
    releasedIn (tr ++ tr') = releasedIn tr ++ releasedIn tr' :=
  List.filterMap_append

/-! ## One item -/

theorem releasedIn_appendNodeEvent {seq : Nat} {kind repoId : String} {field : String × String}
    {tr : SequencerTrace} {r : Except StorageError Unit}
    (h : Proc.Traces (appendNodeEvent runId seq kind repoId field) tr r) : releasedIn tr = [] := by
  obtain ⟨timestamp, tr₁, rfl, h₁⟩ := Proc.Traces.of_call h
  obtain ⟨answer, tr₂, rfl, h₂⟩ := Proc.Traces.of_call h₁
  obtain ⟨rfl, _⟩ := Proc.Traces.of_ret h₂
  rfl

theorem traces_release {α : Type} {repoId versionLabel specDigest promotedBy : String}
    {next : Except String String → SequencerProc α} {tr : SequencerTrace} {a : α}
    (h : Proc.Traces (release repoId versionLabel specDigest promotedBy >>= next) tr a) :
    ∃ (answer : Except String String) (tr' : SequencerTrace),
      releasedIn tr = repoId :: releasedIn tr' ∧ Proc.Traces (next answer) tr' a := by
  obtain ⟨answer, tr', rfl, h'⟩ := Proc.Traces.of_call h
  exact ⟨answer, tr', rfl, h'⟩

theorem traces_createRun {α : Type} {spec : ContentDigest} {metadata : RunMetadata Json}
    {next : Except StorageError RunId → SequencerProc α} {tr : SequencerTrace} {a : α}
    (h : Proc.Traces (createRun spec metadata >>= next) tr a) :
    ∃ (answer : Except StorageError RunId) (tr' : SequencerTrace),
      releasedIn tr = releasedIn tr' ∧ Proc.Traces (next answer) tr' a := by
  obtain ⟨answer, tr', rfl, h'⟩ := Proc.Traces.of_call h
  exact ⟨answer, tr', rfl, h'⟩

theorem releasedIn_finish {ok : Bool} {summary : RunSummary} {tr : SequencerTrace}
    {r : Except StorageError Unit}
    (h : Proc.Traces (if ok then completeRun runId summary else failRun runId summary) tr r) :
    releasedIn tr = [] := by
  cases ok with
  | true =>
      obtain ⟨_, _, rfl, h'⟩ := Proc.Traces.of_call h
      obtain ⟨rfl, _⟩ := Proc.Traces.of_ret h'
      rfl
  | false =>
      obtain ⟨_, _, rfl, h'⟩ := Proc.Traces.of_call h
      obtain ⟨rfl, _⟩ := Proc.Traces.of_ret h'
      rfl

theorem transitiveDependentsOf_spec (hg : g.WellFormed) (order : HashOrder) {id : String}
    (hid : id ∈ g.nodes) :
    ∃ ids, g.transitiveDependentsOf order id = some (.ok ids) ∧
      ∀ d, d ∈ ids ↔ TransGen g.Edge id d := by
  have hclosed : ∀ v, ∀ w ∈ g.dependents order v, w ∈ g.nodes.keys :=
    fun v w hw => (hg.finite order).target hw
  obtain ⟨out, hout, hmem⟩ : ∃ out,
      Digraph.bfs (g.dependents order) (g.nodes.keys.card + 2) ∅ [id] = some out ∧
        ∀ w, w ∈ out ↔ TransGen (Digraph.Succ (g.dependents order)) id w :=
    Digraph.bfs_spec hclosed (Nat.lt_succ_self (g.nodes.keys.card + 1))
  refine ⟨order.visited.list out, ?_, ?_⟩
  · simp only [transitiveDependentsOf, hid, not_true_eq_false, if_false, hout]
  · intro d
    rw [order.visited.mem_list, hmem, succ_dependents]

/-- Everything an item that does not end the run can do to the progress, with the releases it
calls. -/
inductive ItemStep (g : RepoDependencyGraph) (item : SequenceItem) (st : Progress) :
    Progress → List String → Prop
  | skip (h : item.status = .skipped ∨ item.repoId ∈ st.skipSet) :
      ItemStep g item st { st with skipped := st.skipped ++ [item.repoId] } []
  | succeed (h : ¬ (item.status = .skipped ∨ item.repoId ∈ st.skipSet)) :
      ItemStep g item st
        { st with succeeded := st.succeeded ++ [item.repoId], seq := st.seq + 2 } [item.repoId]
  | fail (h : ¬ (item.status = .skipped ∨ item.repoId ∈ st.skipSet)) (reason : String)
      (dependents : Finset String) (hdeps : ∀ d, d ∈ dependents ↔ TransGen g.Edge item.repoId d) :
      ItemStep g item st
        { st with
          failed := st.failed ++ [(item.repoId, reason)]
          skipSet := st.skipSet ∪ dependents
          seq := st.seq + 2 } [item.repoId]

section Return

variable {α ε : Type} {P : α → Prop}

theorem returns_ok {a : α} (h : P a) :
    (some (.ok a) : Option (Except ε α)) ≠ none ∧
      ∀ b, (some (.ok a) : Option (Except ε α)) = some (.ok b) → P b := by
  refine ⟨Option.some_ne_none _, ?_⟩
  rintro b hb
  obtain rfl : a = b := by simpa using hb
  exact h

theorem returns_error {e : ε} :
    (some (.error e) : Option (Except ε α)) ≠ none ∧
      ∀ b, (some (.error e) : Option (Except ε α)) = some (.ok b) → P b := by
  refine ⟨Option.some_ne_none _, ?_⟩
  intro b hb
  simp at hb

end Return

theorem executeItem_cases (hg : g.WellFormed) {item : SequenceItem} (hitem : item.repoId ∈ g.nodes)
    {st : Progress} {tr : SequencerTrace} {res : Option (Except MultiRepoError Progress)}
    (h : Proc.Traces (executeItem g orders runId item st) tr res) :
    res ≠ none ∧ ∀ st', res = some (.ok st') → ItemStep g item st st' (releasedIn tr) := by
  unfold executeItem at h
  split at h
  · next hskip =>
    obtain ⟨rfl, rfl⟩ := Proc.Traces.of_ret h
    exact returns_ok (ItemStep.skip hskip)
  · next hrun =>
    obtain ⟨tr₁, started, tr₂, rfl, hstart, hrest⟩ := Proc.Traces.of_bind h
    have hnone := releasedIn_appendNodeEvent hstart
    rw [releasedIn_append, hnone, List.nil_append]
    cases started with
    | error e =>
        obtain ⟨rfl, rfl⟩ := Proc.Traces.of_ret hrest
        exact returns_error
    | ok _ =>
        obtain ⟨answer, tr₃, hcall, hanswered⟩ := traces_release hrest
        rw [hcall]
        -- the releaser answers, and the outcome is written to the ledger
        cases answer with
        | ok released =>
            obtain ⟨tr₄, ended, tr₅, rfl, hend, hlast⟩ := Proc.Traces.of_bind hanswered
            rw [releasedIn_append, releasedIn_appendNodeEvent hend, List.nil_append]
            cases ended with
            | error e =>
                obtain ⟨rfl, rfl⟩ := Proc.Traces.of_ret hlast
                exact returns_error
            | ok _ =>
                obtain ⟨rfl, rfl⟩ := Proc.Traces.of_ret hlast
                exact returns_ok (ItemStep.succeed hrun)
        | error reason =>
            obtain ⟨tr₄, ended, tr₅, rfl, hend, hlast⟩ := Proc.Traces.of_bind hanswered
            rw [releasedIn_append, releasedIn_appendNodeEvent hend, List.nil_append]
            cases ended with
            | error e =>
                obtain ⟨rfl, rfl⟩ := Proc.Traces.of_ret hlast
                exact returns_error
            | ok _ =>
                obtain ⟨ids, hids, hmem⟩ := transitiveDependentsOf_spec hg (orders item.repoId) hitem
                simp only [hids] at hlast
                obtain ⟨rfl, rfl⟩ := Proc.Traces.of_ret hlast
                have hdeps : ∀ d, d ∈ ids.toFinset ↔ TransGen g.Edge item.repoId d := by
                  intro d
                  rw [List.mem_toFinset, hmem]
                exact returns_ok (ItemStep.fail hrun reason ids.toFinset hdeps)

/-! ## All items -/

/-- The ids come after everything they depend on. -/
structure DependencyOrdered (g : RepoDependencyGraph) (ids : List String) : Prop where
  nodup : ids.Nodup
  before : ∀ pre x post, ids = pre ++ x :: post → ∀ a, TransGen g.Edge a x → a ∈ pre

/-- None of the ids taken first depends on a later one. -/
theorem DependencyOrdered.not_transGen {pre post : List String} {x r : String}
    (h : DependencyOrdered g (pre ++ x :: post)) (hr : r ∈ pre) : ¬ TransGen g.Edge x r := by
  intro hpath
  obtain ⟨p₁, p₂, rfl⟩ := List.append_of_mem hr
  have hx : x ∈ p₁ := h.before p₁ r (p₂ ++ x :: post) (by simp) x hpath
  have hnodup := h.nodup
  rw [List.append_assoc, List.nodup_append] at hnodup
  exact hnodup.2.2 x hx x (by simp) rfl

theorem DependencyOrdered.pairwise {ids : List String} (h : DependencyOrdered g ids) :
    ids.Pairwise fun a b => ¬ TransGen g.Edge b a := by
  rw [List.pairwise_iff_getElem]
  intro i j hi hj hij
  have hsplit : ids = ids.take j ++ ids[j] :: ids.drop (j + 1) := by simp
  have hmem : ids[i] ∈ ids.take j := List.mem_take_iff_getElem.mpr ⟨i, by omega, rfl⟩
  rw [hsplit] at h
  exact h.not_transGen hmem

/-- What holds after the items `taken`, with the releases called for them. -/
structure SequenceInv (g : RepoDependencyGraph) (taken released : List String) (st : Progress) :
    Prop where
  perm : (st.succeeded ++ st.failed.map Prod.fst ++ st.skipped).Perm taken
  released_perm : released.Perm (st.succeeded ++ st.failed.map Prod.fst)
  released_sublist : released.Sublist taken
  skip : ∀ f ∈ st.failed.map Prod.fst, ∀ d, TransGen g.Edge f d → d ∈ st.skipSet
  safe : ∀ r ∈ released, ∀ d, TransGen g.Edge d r → d ∉ st.failed.map Prod.fst

theorem SequenceInv.start (g : RepoDependencyGraph) : SequenceInv g [] [] Progress.start := by
  constructor <;> simp [Progress.start]

/-- Moving one element to the end of the first of two lists. -/
theorem perm_append_insert {l l' m : List String} {x : String} (h : (l ++ l').Perm m) :
    (l ++ [x] ++ l').Perm (m ++ [x]) := by
  have hmove : (l ++ [x] ++ l').Perm ((l ++ l') ++ [x]) := by
    rw [List.append_assoc, List.append_assoc]
    exact List.perm_append_comm.append_left l
  exact hmove.trans (h.append_right [x])

/-- What an item that is not skipped depends on has not failed. -/
theorem SequenceInv.notMem_failed {taken released : List String} {st : Progress}
    {item : SequenceItem} (h : SequenceInv g taken released st)
    (hrun : ¬ (item.status = .skipped ∨ item.repoId ∈ st.skipSet)) {d : String}
    (hd : TransGen g.Edge d item.repoId) : d ∉ st.failed.map Prod.fst := by
  intro hmem
  exact hrun (Or.inr (h.skip d hmem item.repoId hd))

/-- A release depends on nothing that has failed, nor on the release that is called last: that one
comes after the others and does not depend on itself. -/
theorem SequenceInv.safe_release (hg : g.WellFormed) {taken released : List String} {st : Progress}
    {item : SequenceItem} (h : SequenceInv g taken released st)
    (hlater : ∀ r ∈ taken, ¬ TransGen g.Edge item.repoId r)
    (hrun : ¬ (item.status = .skipped ∨ item.repoId ∈ st.skipSet)) {r d : String}
    (hr : r ∈ released ++ [item.repoId]) (hd : TransGen g.Edge d r) :
    d ∉ st.failed.map Prod.fst ∧ d ≠ item.repoId := by
  rcases List.mem_append.mp hr with hr | hr
  · refine ⟨h.safe r hr d hd, ?_⟩
    rintro rfl
    exact hlater r (h.released_sublist.subset hr) hd
  · rw [List.mem_singleton.mp hr] at hd
    refine ⟨h.notMem_failed hrun hd, ?_⟩
    rintro rfl
    exact hg.acyclic item.repoId hd

/-- One item. -/
theorem SequenceInv.step (hg : g.WellFormed) {taken released released' : List String}
    {st st' : Progress} {item : SequenceItem} (h : SequenceInv g taken released st)
    (hlater : ∀ r ∈ taken, ¬ TransGen g.Edge item.repoId r)
    (hstep : ItemStep g item st st' released') :
    SequenceInv g (taken ++ [item.repoId]) (released ++ released') st' := by
  cases hstep with
  | skip _ =>
      refine ⟨?_, by simpa using h.released_perm, ?_, h.skip, by simpa using h.safe⟩
      · rw [← List.append_assoc]
        exact h.perm.append_right [item.repoId]
      · simpa using h.released_sublist.trans (List.sublist_append_left taken [item.repoId])
  | succeed hrun =>
      have hsucc : ((st.succeeded ++ [item.repoId]) ++ st.failed.map Prod.fst).Perm
          (st.succeeded ++ st.failed.map Prod.fst ++ [item.repoId]) :=
        perm_append_insert (List.Perm.refl _)
      refine ⟨?_, (h.released_perm.append_right _).trans hsucc.symm,
        h.released_sublist.append (List.Sublist.refl _), h.skip, ?_⟩
      · have hperm := h.perm
        rw [List.append_assoc] at hperm ⊢
        exact perm_append_insert hperm
      · intro r hr d hd
        exact (h.safe_release hg hlater hrun hr hd).1
  | fail hrun reason dependents hdeps =>
      refine ⟨?_, ?_, h.released_sublist.append (List.Sublist.refl _), ?_, ?_⟩
      · rw [List.map_append, ← List.append_assoc]
        exact perm_append_insert h.perm
      · rw [List.map_append, ← List.append_assoc]
        exact h.released_perm.append_right _
      · intro f hf d hd
        rw [List.map_append, List.mem_append] at hf
        rw [Finset.mem_union]
        rcases hf with hf | hf
        · exact Or.inl (h.skip f hf d hd)
        · rw [show f = item.repoId by simpa using hf] at hd
          exact Or.inr ((hdeps d).mpr hd)
      · intro r hr d hd
        obtain ⟨hfailed, hne⟩ := h.safe_release hg hlater hrun hr hd
        rw [List.map_append, List.mem_append, not_or]
        exact ⟨hfailed, by simpa using hne⟩

/-- The loop over the items, by induction on what is left. -/
theorem executeItems_inv (hg : g.WellFormed) (items : List SequenceItem)
    {taken released : List String} {st : Progress} (h : SequenceInv g taken released st)
    (hordered : DependencyOrdered g (taken ++ items.map SequenceItem.repoId))
    (hnodes : ∀ item ∈ items, item.repoId ∈ g.nodes) {tr : SequencerTrace}
    {res : Option (Except MultiRepoError Progress)}
    (htr : Proc.Traces (executeItems g orders runId items st) tr res) :
    res ≠ none ∧ ∀ st', res = some (.ok st') →
      SequenceInv g (taken ++ items.map SequenceItem.repoId) (released ++ releasedIn tr) st' := by
  induction items generalizing taken released st tr with
  | nil =>
      obtain ⟨rfl, rfl⟩ := Proc.Traces.of_ret htr
      apply returns_ok
      simpa [releasedIn] using h
  | cons item items ih =>
      obtain ⟨tr₁, first, tr₂, rfl, hfirst, hrest⟩ := Proc.Traces.of_bind htr
      obtain ⟨hsome, hcases⟩ := executeItem_cases hg (hnodes item List.mem_cons_self) hfirst
      rcases first with _ | e | st₁
      · exact absurd rfl hsome
      · obtain ⟨rfl, rfl⟩ := Proc.Traces.of_ret hrest
        exact returns_error
      · have hlater : ∀ r ∈ taken, ¬ TransGen g.Edge item.repoId r := fun r hr =>
          hordered.not_transGen hr
        have hnext := h.step hg hlater (hcases st₁ rfl)
        have hall := ih hnext (by simpa using hordered)
          (fun x hx => hnodes x (List.mem_cons_of_mem item hx)) hrest
        rw [releasedIn_append]
        simpa using hall

/-- A whole execution. -/
theorem executePlan_inv (hg : g.WellFormed) {digest : String → ContentDigest}
    {plan : SequencePlan} (hordered : DependencyOrdered g (plan.items.map SequenceItem.repoId))
    (hnodes : ∀ item ∈ plan.items, item.repoId ∈ g.nodes) {tr : SequencerTrace}
    {res : Option (Except MultiRepoError SequenceOutcome)}
    (htr : Proc.Traces (executePlan g orders digest plan) tr res) :
    res ≠ none ∧ ∀ outcome, res = some (.ok outcome) → ∃ st,
      SequenceInv g (plan.items.map SequenceItem.repoId) (releasedIn tr) st ∧
      outcome = ⟨plan.planId, st.succeeded, st.failed, st.skipped⟩ := by
  obtain ⟨created, tr₁, hcall, hcreated⟩ := traces_createRun htr
  rw [hcall]
  rcases created with e | runId
  · obtain ⟨rfl, rfl⟩ := Proc.Traces.of_ret hcreated
    exact returns_error
  · obtain ⟨tr₂, loop, tr₃, rfl, hloop, hfinish⟩ := Proc.Traces.of_bind hcreated
    obtain ⟨hsome, hinv⟩ := executeItems_inv hg plan.items (SequenceInv.start g) hordered hnodes hloop
    rcases loop with _ | e | st
    · exact absurd rfl hsome
    · obtain ⟨rfl, rfl⟩ := Proc.Traces.of_ret hfinish
      exact returns_error
    · obtain ⟨tr₄, finished, tr₅, rfl, hfinished, hlast⟩ := Proc.Traces.of_bind hfinish
      rw [releasedIn_append, releasedIn_append, releasedIn_finish hfinished, List.nil_append]
      rcases finished with e | _
      · obtain ⟨rfl, rfl⟩ := Proc.Traces.of_ret hlast
        exact returns_error
      · obtain ⟨rfl, rfl⟩ := Proc.Traces.of_ret hlast
        apply returns_ok
        exact ⟨st, by simpa [releasedIn] using hinv st rfl, rfl⟩

/-! ## The plan -/

theorem RepoDependencyGraph.LevelOrdered.dependencyOrdered {popped : List (String × Nat)}
    (h : g.LevelOrdered popped) : DependencyOrdered g (popped.map Prod.fst) := by
  refine ⟨h.nodup, ?_⟩
  intro pre x post hsplit a ha
  have hbefore {pre post : List String} {x : String} (hsplit : popped.map Prod.fst = pre ++ x :: post)
      {a : String} (hedge : g.Edge a x) : a ∈ pre := by
    obtain ⟨p₁, p₂, rfl, rfl, hp₂⟩ := List.map_eq_append_iff.mp hsplit
    obtain ⟨y, p₃, rfl, rfl, rfl⟩ := List.map_eq_cons_iff.mp hp₂
    exact h.ordered p₁ y p₃ rfl a hedge
  -- along the chain, from the end
  induction ha using TransGen.head_induction_on with
  | single hedge =>
      exact hbefore hsplit hedge
  | @head b c hedge _ ih =>
      obtain ⟨p₁, p₂, rfl⟩ := List.append_of_mem ih
      have hsplit' : popped.map Prod.fst = p₁ ++ c :: (p₂ ++ x :: post) := by simpa using hsplit
      exact List.mem_append_left _ (hbefore hsplit' hedge)

/-- `build_plan` succeeds and lists every node of the graph, in dependency order. -/
theorem buildPlan_spec (hg : g.WellFormed) (order : HashOrder) (uuid : String)
    (releases : List Release) (originatingRunId : String) :
    ∃ (plan : SequencePlan) (nodes : List RepoNode),
      buildPlan g order uuid releases originatingRunId = some (.ok plan) ∧
      plan.items = nodes.map (sequenceItem (releaseMap releases)) ∧
      plan.items.map SequenceItem.repoId = nodes.map RepoNode.repoId ∧
      DependencyOrdered g (plan.items.map SequenceItem.repoId) ∧
      ∀ id, id ∈ plan.items.map SequenceItem.repoId ↔ id ∈ g.nodes := by
  obtain ⟨popped, nodes, _, hlevel, htopo, hnodes⟩ := topologicalOrder_spec hg order
  obtain ⟨hids, _, _⟩ := hlevel.nodes_spec hg hnodes
  have hitem (node : RepoNode) :
      (sequenceItem (releaseMap releases) node).repoId = node.repoId := by
    unfold sequenceItem
    split <;> rfl
  have hmap : (nodes.map (sequenceItem (releaseMap releases))).map SequenceItem.repoId =
      nodes.map RepoNode.repoId := by
    rw [List.map_map]
    exact List.map_congr_left fun node _ => hitem node
  refine ⟨_, nodes, by rw [buildPlan, htopo], rfl, hmap, ?_, ?_⟩
  · rw [hmap, hids]
    exact hlevel.dependencyOrdered
  · intro id
    rw [hmap, hids]
    exact hlevel.mem_iff id

/-- For any answers of the releaser and the ledger, an execution that returns reports every node of
the graph exactly once, calls `release` exactly once for the succeeded and failed ones, dependencies
first, and never for a repo that depends on a failed one. -/
theorem executePlan_never_releases_past_failure (g : RepoDependencyGraph) (hg : g.Reachable)
    (order : HashOrder) (orders : String → HashOrder) (digest : String → ContentDigest)
    (uuid originatingRunId : String) (releases : List Release) (plan : SequencePlan)
    (hplan : buildPlan g order uuid releases originatingRunId = some (.ok plan))
    (tr : SequencerTrace) (outcome : SequenceOutcome)
    (htr : Proc.Traces (executePlan g orders digest plan) tr (some (.ok outcome))) :
    (outcome.succeeded ++ outcome.failed.map Prod.fst ++ outcome.skipped).Nodup ∧
    (∀ id, id ∈ outcome.succeeded ++ outcome.failed.map Prod.fst ++ outcome.skipped ↔
      id ∈ g.nodes) ∧
    (releasedIn tr).Perm (outcome.succeeded ++ outcome.failed.map Prod.fst) ∧
    (releasedIn tr).Pairwise (fun a b => ¬ TransGen g.Edge b a) ∧
    ∀ id ∈ releasedIn tr, ∀ d, TransGen g.Edge d id → d ∉ outcome.failed.map Prod.fst := by
  have hwf := hg.wellFormed
  obtain ⟨plan', _, hplan', _, _, hordered, hmem⟩ :=
    buildPlan_spec hwf order uuid releases originatingRunId
  obtain rfl : plan' = plan := by simpa [hplan'] using hplan
  obtain ⟨st, hinv, rfl⟩ := (executePlan_inv hwf hordered
    (fun item hitem => (hmem _).mp (List.mem_map_of_mem hitem)) htr).2 outcome rfl
  refine ⟨?_, ?_, hinv.released_perm, ?_, hinv.safe⟩
  · exact hinv.perm.nodup_iff.mpr hordered.nodup
  · intro id
    rw [hinv.perm.mem_iff]
    exact hmem id
  · exact List.Pairwise.sublist hinv.released_sublist hordered.pairwise

/-- A digest to run examples with. -/
def zeroDigest : ContentDigest :=
  ⟨"0000000000000000000000000000000000000000000000000000000000000000", by decide, by decide⟩

/-- A ledger that takes everything and a releaser that fails for `api`. -/
def demoAnswer : (op : SequencerOp) → Unit → op.Ans × Unit
  | .createRun _ _, s => (.ok "run-1", s)
  | .appendEvent _ _, s => (.ok (), s)
  | .completeRun _ _, s => (.ok (), s)
  | .failRun _ _, s => (.ok (), s)
  | .release repoId _ _ _, s =>
      (if repoId = "api" then .error "CI is red" else .ok ("release-" ++ repoId), s)
  | .now, s => ((0 : Timestamp), s)

def demoReleases : List Release :=
  [("web", "v1", "d1", "ops"), ("api", "v2", "d2", "ops")]

def demoPlan : SequencePlan where
  planId := "seq-4f5a"
  items := [⟨"api", "v2", "d2", "ops", .pending⟩, ⟨"web", "v1", "d1", "ops", .pending⟩]
  originatingRunId := "run-0"

theorem buildPlan_demo : buildPlan demoGraph HashOrder.sorted "4f5a-11" demoReleases "run-0" =
    some (.ok demoPlan) := by
  rfl

theorem executePlan_never_releases_past_failure_demo :
    releasedIn (Proc.traceOf demoAnswer
      (executePlan demoGraph (fun _ => HashOrder.sorted) (fun _ => zeroDigest) demoPlan) ()) =
        ["api"] ∧
    ∀ id ∈ releasedIn (Proc.traceOf demoAnswer
      (executePlan demoGraph (fun _ => HashOrder.sorted) (fun _ => zeroDigest) demoPlan) ()),
      ∀ d, TransGen demoGraph.Edge d id → d ∉ ["api"] := by
  have hrun : (Proc.run demoAnswer (executePlan demoGraph (fun _ => HashOrder.sorted)
      (fun _ => zeroDigest) demoPlan) ()).1 =
        some (.ok ⟨"seq-4f5a", [], [("api", "CI is red")], ["web"]⟩) := by
    rfl
  have htr := Proc.traces_traceOf demoAnswer (executePlan demoGraph (fun _ => HashOrder.sorted)
    (fun _ => zeroDigest) demoPlan) ()
  rw [hrun] at htr
  obtain ⟨_, _, _, _, hsafe⟩ := executePlan_never_releases_past_failure demoGraph
    demoGraph_reachable HashOrder.sorted (fun _ => HashOrder.sorted) (fun _ => zeroDigest)
    "4f5a-11" "run-0" demoReleases demoPlan buildPlan_demo _ _ htr
  exact ⟨by rfl, hsafe⟩

/-! ## Requested releases -/

theorem filter_eq_singleton {α β : Type} [DecidableEq β] {f : α → β} {l : List α} {x : α}
    (hnodup : (l.map f).Nodup) (hx : x ∈ l) : l.filter (fun y => f y = f x) = [x] := by
  obtain ⟨pre, post, rfl⟩ := List.append_of_mem hx
  rw [List.map_append, List.map_cons, List.nodup_append, List.nodup_cons] at hnodup
  have hpre : pre.filter (fun y => f y = f x) = [] := by
    rw [List.filter_eq_nil_iff]
    intro y hy
    simpa using hnodup.2.2 (f y) (List.mem_map_of_mem hy) (f x) List.mem_cons_self
  have hpost : post.filter (fun y => f y = f x) = [] := by
    rw [List.filter_eq_nil_iff]
    intro y hy
    have hne : f y ≠ f x := by
      intro h
      exact hnodup.2.1.1 (h ▸ List.mem_map_of_mem hy)
    simpa using hne
  rw [List.filter_append, List.filter_cons, hpre, hpost]
  simp

/-- The pending item of a requested release. -/
def pendingItem (r : Release) : SequenceItem :=
  ⟨r.1, r.2.1, r.2.2.1, r.2.2.2, .pending⟩

/-- Every request becomes the one pending item of its repo, and is reported exactly once by any
execution of the plan that returns, if and only if every requested repo is a node of the graph. -/
theorem buildPlan_keeps_requests_iff_registered (g : RepoDependencyGraph) (hg : g.Reachable)
    (order : HashOrder) (uuid originatingRunId : String) (releases : List Release)
    (hdistinct : (releases.map Prod.fst).Nodup) :
    (∀ plan, buildPlan g order uuid releases originatingRunId = some (.ok plan) →
      ∀ r ∈ releases, plan.items.filter (fun item => item.repoId = r.1) = [pendingItem r] ∧
        ∀ orders digest tr outcome,
          Proc.Traces (executePlan g orders digest plan) tr (some (.ok outcome)) →
          (outcome.succeeded ++ outcome.failed.map Prod.fst ++ outcome.skipped).count r.1 = 1) ↔
    ∀ r ∈ releases, r.1 ∈ g.nodes := by
  have hwf := hg.wellFormed
  obtain ⟨plan, nodes, hplan, hitems, hids, hordered, hmem⟩ :=
    buildPlan_spec hwf order uuid releases originatingRunId
  constructor
  · intro h r hr
    obtain ⟨hfilter, _⟩ := h plan hplan r hr
    have hitem : pendingItem r ∈ plan.items.filter (fun item => item.repoId = r.1) := by
      rw [hfilter]
      exact List.mem_singleton_self _
    exact (hmem r.1).mp (List.mem_map_of_mem (List.mem_filter.mp hitem).1)
  · intro h plan' hplan' r hr
    obtain rfl : plan = plan' := by simpa [hplan] using hplan'
    constructor
    · have hr' : r.1 ∈ nodes.map RepoNode.repoId := hids ▸ (hmem r.1).mpr (h r hr)
      obtain ⟨node, hnode, hid⟩ := List.mem_map.mp hr'
      have hitem : sequenceItem (releaseMap releases) node = pendingItem r := by
        have hlookup : (releaseMap releases).lookup node.repoId = some r.2 := by
          rw [hid]
          exact HashMap.lookup_ofList hdistinct hr
        simp only [sequenceItem, hlookup, hid, pendingItem]
      have hin : pendingItem r ∈ plan.items := by
        rw [hitems, ← hitem]
        exact List.mem_map_of_mem hnode
      exact filter_eq_singleton hordered.nodup hin
    · intro orders digest tr outcome htr
      obtain ⟨st, hinv, rfl⟩ := (executePlan_inv hwf hordered
        (fun item hitem => (hmem _).mp (List.mem_map_of_mem hitem)) htr).2 outcome rfl
      rw [hinv.perm.count_eq]
      exact List.count_eq_one_of_mem hordered.nodup ((hmem r.1).mpr (h r hr))

theorem buildPlan_keeps_requests_iff_registered_demo :
    buildPlan demoGraph HashOrder.sorted "4f5a-11" demoReleases "run-0" = some (.ok demoPlan) ∧
      ∀ r ∈ demoReleases,
        demoPlan.items.filter (fun item => item.repoId = r.1) = [pendingItem r] := by
  refine ⟨buildPlan_demo, fun r hr => ?_⟩
  have hnodes : ∀ r ∈ demoReleases, r.1 ∈ demoGraph.nodes := by decide
  exact ((buildPlan_keeps_requests_iff_registered demoGraph demoGraph_reachable HashOrder.sorted
    "4f5a-11" "run-0" demoReleases (by decide)).mpr hnodes demoPlan buildPlan_demo r hr).1

/-- A request for a repo the graph does not know is left out of the plan without an error. -/
theorem buildPlan_drops_unregistered : demoGraph.Reachable ∧
    ([("ghost", "v1", "d1", "ops")].map Prod.fst : List String).Nodup ∧
    ∃ plan, buildPlan demoGraph HashOrder.sorted "4f5a-11" [("ghost", "v1", "d1", "ops")] "run-0" =
        some (.ok plan) ∧
      "ghost" ∉ plan.items.map SequenceItem.repoId :=
  ⟨demoGraph_reachable, by decide, _, rfl, by decide⟩

end MultiRepo
end Aivcs
