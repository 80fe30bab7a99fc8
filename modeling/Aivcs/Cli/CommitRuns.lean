import Aivcs.Cli.VersionControl
import Aivcs.Lib.Interleaving

/-!
# Cli.CommitRuns — runs of the version-control commands

Any number of commands run on one store, each operation of one of them at a time.

* `history_kept` — the store stays sound, and what is stored stays;
* `succeeded_done`, `restored_state` — a success lasts, and a snapshot is restored as it was taken;
* `ancestors_stored` — with parents that are stored the history has no cycle and no gap;
* `log_complete` — when no command is running, `log` lists all stored ancestors;
* `created_once` — a commit is announced by one command at most;
* `semanticMerge_alone` — a merge that runs alone is the merge of the two commits in one step.
-/

namespace Aivcs
namespace Cli
namespace VersionControl

open Aivcs.Lib Aivcs.Lib.Digraph
open Aivcs.Domain (Number Value)
open Aivcs.State
open Aivcs.SemanticMerge (Env MemoryConflict MergeResult)
open Relation

/-! ## Runs -/

/-- Digests of a first commit and of a snapshot as SHA-256 gives them. -/
def demoEnv : Env :=
  { SemanticMerge.demoEnv with
    sha256Hex := tableDigest [
      (utf8 "\x7b\"initialized\":true,\"version\":\"0.5.2\"\x7d",
        "62b793aabe54606d3b14e93f47d167d3c7beef14b1b5b66c5a7a1fddb6dd3c16"),
      (utf8 "LN" ++ [0] ++ utf8 "S:62b793aabe54606d3b14e93f47d167d3c7beef14b1b5b66c5a7a1fddb6dd3c16" ++ [0] ++
        utf8 "EN", "0fa56c190892a95fe470bd259f14594ea3f87fdfd6a0047e938f2683b55ed7f5"),
      (utf8 "\x7b\"step\":1\x7d", "8565a568653654ae5b4d4444245fa76e8bdea8c7d0db4a75bcffbb60bd6a0452"),
      (utf8 "LN" ++ [0] ++ utf8 "S:8565a568653654ae5b4d4444245fa76e8bdea8c7d0db4a75bcffbb60bd6a0452" ++ [0] ++
        utf8 "EN", "5bfb72c8c4b3aa78265e20dce4bad578d07e078fa114eb26d1d26497525c6cf0")] }

theorem range_one : -2 ^ 63 ≤ (1 : Int) ∧ (1 : Int) < 2 ^ 64 := by
  decide

theorem uniqueKeys_stepOne :
    (Doc.obj [("step", .num (.int 1 range_one))] : Doc Number).UniqueKeys :=
  ⟨by simp, trivial, trivial⟩

/-- A state on top of the first commit. -/
def stepOne : SnapshotInput where
  stateContent := .ok "\x7b\"step\":1\x7d"
  parseJson _ := .ok ⟨.obj [("step", .num (.int 1 range_one))], uniqueKeys_stepOne⟩
  currentDir := .ok ()
  logicHash := none
  envHash := none
  putCas _ := .ok ()
  message := "step one"
  author := "agent"
  parent := some "0fa56c190892a95fe470bd259f14594ea3f87fdfd6a0047e938f2683b55ed7f5"

def stepOneId : CommitId :=
  ⟨"5bfb72c8c4b3aa78265e20dce4bad578d07e078fa114eb26d1d26497525c6cf0", none,
    "8565a568653654ae5b4d4444245fa76e8bdea8c7d0db4a75bcffbb60bd6a0452", none⟩

def demoCommands : Fin 3 → Command
  | 0 => .init
  | 1 => .snapshot stepOne
  | 2 => .restore stepOneId.hash

/-- The first two commands take turns. -/
def demoSchedule : List (Fin 3) :=
  [0, 1, 0, 1, 0, 1, 0, 1, 1, 1]

section Runs

variable {ι : Type} [DecidableEq ι] {env : Env} {w : World} {commands : ι → Command}

/-- A store and the commands that run on it. -/
abbrev Running (ι : Type) : Type :=
  Interleaving.Config Op Op.Ans (Except CommandError Output) World ι

/-- The commands before their first operations. -/
def started (env : Env) (w : World) (commands : ι → Command) : Running ι :=
  ⟨w, fun i => (commands i).program env⟩

/-- The commands that have not finished go on, in any order. -/
abbrev Runs (env : Env) : Running ι → Running ι → Prop :=
  Interleaving.Steps (exec env) fun _ _ => True

variable {c c' : Running ι}

theorem runs_preserved (hw : Sound w.store) (h : Runs env (started env w commands) c) :
    Evolves w c.store ∧ Interleaving.AllWp (exec env) (fun _ _ => True) Evolves
      (fun i => OnSuccess fun output w' => Done env w' (commands i) output) c :=
  h.wp_preserved Evolves.refl Evolves.trans fun i _ hw' => correct_program (commands i) (hw'.sound hw)

theorem runs_evolves (hw : Sound w.store) (h : Runs env (started env w commands) c)
    (h' : Runs env c c') : Evolves c.store c'.store :=
  (h'.wp_preserved Evolves.refl Evolves.trans (runs_preserved hw h).2).1

/-- The first two demo commands have finished, and the third has not begun. -/
def demoRun : Running (Fin 3) :=
  (started demoEnv .empty demoCommands).fireAll (exec demoEnv) demoSchedule

theorem runs_demoRun : Runs demoEnv (started demoEnv .empty demoCommands) demoRun :=
  Interleaving.Steps.of_okAlong (Interleaving.Config.okAlong_of_forall (fun _ _ => trivial) _ _)

/-- The third has run, too. -/
def demoEnd : Running (Fin 3) :=
  demoRun.fireAll (exec demoEnv) [2]

theorem runs_demoEnd : Runs demoEnv demoRun demoEnd :=
  Interleaving.Steps.of_okAlong (Interleaving.Config.okAlong_of_forall (fun _ _ => trivial) _ _)

theorem demoRun_snapshot : demoRun.procs 1 = .ret (.ok (.snapshot stepOneId)) := rfl

/-- Whatever commands run at once, at every moment each stored commit can be restored and is under its own
id, each edge is one that the record of a stored commit names, and what is stored stays as it is. -/
theorem history_kept (commands : ι → Command) (hw : Sound w.store)
    (h : Runs env (started env w commands) c) (h' : Runs env c c') :
    Sound c.store.store ∧ Grows c.store.store c'.store.store :=
  ⟨(runs_preserved hw h).1.sound hw, (runs_evolves hw h h').grows⟩

theorem history_kept_demo : Sound demoRun.store.store ∧ Grows demoRun.store.store demoEnd.store.store :=
  history_kept demoCommands sound_empty runs_demoRun runs_demoEnd

/-- A command that has succeeded has done what its output says, and nothing that runs beside it or after it
undoes that. -/
theorem succeeded_done (commands : ι → Command) (hw : Sound w.store)
    (h : Runs env (started env w commands) c) {i : ι} {output : Output}
    (hi : c.procs i = .ret (.ok output)) (h' : Runs env c c') :
    Done env c'.store (commands i) output :=
  (runs_preserved hw (h.trans h')).2.post_of_ret Evolves.refl (h'.procs_ret hi) output rfl

theorem succeeded_done_demo : Done demoEnv demoEnd.store (.snapshot stepOne) (.snapshot stepOneId) :=
  succeeded_done demoCommands sound_empty runs_demoRun demoRun_snapshot runs_demoEnd

/-- A command that begins when a snapshot was stored restores its state, whatever else runs. -/
theorem restored_state (commands : ι → Command) (hw : Sound w.store)
    (h : Runs env (started env w commands) c) {i j : ι} {input : SnapshotInput} {commitId : CommitId}
    (hi : commands i = .snapshot input) (hdone : c.procs i = .ret (.ok (.snapshot commitId)))
    (hj : c.procs j = (Command.restore commitId.hash).program env) (h' : Runs env c c')
    {r : Except CommandError Output} (hr : c'.procs j = .ret r) :
    ∃ state, input.prepare env = .ok (state, commitId) ∧ r = .ok (.restored state) := by
  have hsnapshot : Done env c.store (commands i) (.snapshot commitId) :=
    (runs_preserved hw h).2.post_of_ret Evolves.refl hdone _ rfl
  rw [hi] at hsnapshot
  obtain ⟨state, hprepare, hstored⟩ := hsnapshot
  obtain ⟨snapshot, hlookup, hstate⟩ := hstored.snapshot
  refine ⟨state, hprepare, ?_⟩
  -- from `c` on the others do what they do, and the one that restores finds the snapshot
  have hall : Interleaving.AllWp (exec env) (fun _ _ => True) Evolves
      (fun k r _ => k = j → r = .ok (.restored state)) c := by
    intro k w' hw'
    by_cases hk : k = j
    · subst hk
      rw [hj]
      have hfound : (exec env (.loadSnapshot commitId.hash) w').1 = some snapshot :=
        hw'.grows.snapshot _ _ hlookup
      refine correct_call (.refl w') fun w₁ _ => ?_
      rw [hfound]
      intro _
      rw [← hstate]
    · exact ((runs_preserved hw h).2 k w' hw').mono fun _ _ _ hkj => absurd hkj hk
  exact (h'.wp_preserved Evolves.refl Evolves.trans hall).2.post_of_ret Evolves.refl hr rfl

theorem restored_state_demo : ∃ state, stepOne.prepare demoEnv = .ok (state, stepOneId) ∧
    (.ok (.restored ⟨.obj [("step", .num (.int 1 range_one))], uniqueKeys_stepOne⟩) :
      Except CommandError Output) = .ok (.restored state) :=
  restored_state (i := 1) (j := 2) demoCommands sound_empty runs_demoRun rfl demoRun_snapshot rfl runs_demoEnd rfl

/-! ### Ancestors -/

/-- The parents that stored commits name are stored, and no commit is its own ancestor. -/
structure Grounded (store : MemoryStore) : Prop where
  parents : ∀ child parent, Names store child parent → parent ∈ store.commits
  acyclic : ∀ h, ¬ TransGen (Names store) h h

theorem grounded_empty : Grounded .empty := by
  have hnone : ∀ child parent, ¬ Names .empty child parent := by
    rintro child parent ⟨commit, hcommit, -⟩
    simp [MemoryStore.getCommit, MemoryStore.empty] at hcommit
  refine ⟨fun child parent h => absurd h (hnone child parent), fun h hcycle => ?_⟩
  obtain ⟨k, hk, -⟩ := TransGen.head'_iff.1 hcycle
  exact hnone h k hk

/-- A commit is saved when its parents are stored. -/
def ParentsStored (w : World) : Op → Prop
  | .saveCommit record => ∀ parent ∈ record.parentIds, parent ∈ w.store.commits
  | _ => True

theorem Names.mem_commits {store : MemoryStore} {child parent : String} (h : Names store child parent) :
    child ∈ store.commits := by
  obtain ⟨commit, hcommit, -⟩ := h
  exact Finmap.mem_of_lookup_eq_some hcommit

/-- What the records name once a commit is saved. -/
theorem names_insert {store : MemoryStore} {record : CommitRecord} {child parent : String}
    (h : Names { store with
      commits := store.commits.insert record.commitId.hash (storedCommit record) } child parent) :
    child = record.commitId.hash ∧ parent ∈ record.parentIds ∨ Names store child parent := by
  obtain ⟨commit, hcommit, hparent⟩ := h
  by_cases hchild : child = record.commitId.hash
  · subst hchild
    obtain rfl : storedCommit record = commit :=
      Option.some.inj ((Finmap.lookup_insert _).symm.trans hcommit)
    exact Or.inl ⟨rfl, hparent⟩
  · exact Or.inr ⟨commit, (Finmap.lookup_insert_of_ne _ hchild).symm.trans hcommit, hparent⟩

/-- A new commit has ancestors but no descendants yet, so it closes no cycle. -/
theorem grounded_saveCommit {store : MemoryStore} {record : CommitRecord} (hstore : Grounded store)
    (hnew : record.commitId.hash ∉ store.commits)
    (hparents : ∀ parent ∈ record.parentIds, parent ∈ store.commits) :
    Grounded { store with
      commits := store.commits.insert record.commitId.hash (storedCommit record) } := by
  have htarget : ∀ {child parent}, Names { store with
      commits := store.commits.insert record.commitId.hash (storedCommit record) } child parent →
        parent ∈ store.commits := by
    intro child parent h
    rcases names_insert h with ⟨-, hparent⟩ | hold
    · exact hparents parent hparent
    · exact hstore.parents child parent hold
  refine ⟨fun child parent h => Finmap.mem_insert.2 (Or.inr (htarget h)), fun h hcycle => ?_⟩
  -- all that is reached is old, and an old commit names what it named before
  have hold : ∀ {a b}, a ∈ store.commits → TransGen (Names { store with
      commits := store.commits.insert record.commitId.hash (storedCommit record) }) a b →
        TransGen (Names store) a b := by
    intro a b ha hpath
    have hsource : ∀ {x y}, x ∈ store.commits → Names { store with
        commits := store.commits.insert record.commitId.hash (storedCommit record) } x y →
          Names store x y := by
      intro x y hx hxy
      refine (names_insert hxy).resolve_left ?_
      rintro ⟨rfl, -⟩
      exact hnew hx
    induction hpath with
    | single hab =>
        exact .single (hsource ha hab)
    | tail hab hbc ih =>
        obtain ⟨m, -, hmb⟩ := TransGen.tail'_iff.1 hab
        exact ih.tail (hsource (htarget hmb) hbc)
  obtain ⟨m, -, hmh⟩ := TransGen.tail'_iff.1 hcycle
  exact hstore.acyclic h (hold (htarget hmh) hcycle)

theorem names_of_commits_eq {store store' : MemoryStore} (h : store'.commits = store.commits) :
    Names store' = Names store := by
  funext child parent
  unfold Names MemoryStore.getCommit
  rw [h]

theorem grounded_of_commits_eq {store store' : MemoryStore} (hstore : Grounded store)
    (h : store'.commits = store.commits) : Grounded store' := by
  have hnames := names_of_commits_eq h
  refine ⟨fun child parent hparent => ?_, fun k => ?_⟩
  · rw [h]
    rw [hnames] at hparent
    exact hstore.parents child parent hparent
  · rw [hnames]
    exact hstore.acyclic k

theorem grounded_exec (op : Op) (w : World) (hw : Grounded w.store) (hop : ParentsStored w op) :
    Grounded (exec env op w).2.store := by
  cases op with
  | saveCommit record =>
      rcases exec_saveCommit env record w with ⟨-, heq⟩ | ⟨hnew, heq⟩
      · rw [heq]
        exact hw
      · rw [heq]
        exact grounded_saveCommit hw hnew hop
  | saveSnapshot now commitId state =>
      rcases exec_saveSnapshot env now commitId state w with ⟨-, heq⟩ | ⟨-, heq⟩
      · rw [heq]
        exact hw
      · rw [heq]
        exact grounded_of_commits_eq hw rfl
  | saveCommitGraphEdge edge => exact grounded_of_commits_eq hw rfl
  | saveMemory record => exact grounded_of_commits_eq hw rfl
  | now => exact hw
  | getCommit _ => exact hw
  | loadSnapshot _ => exact hw
  | getParents _ => exact hw
  | getMemories _ => exact hw

/-- When commits are saved only once their parents are stored, every ancestor of a stored commit is stored,
and no commit is its own ancestor. -/
theorem ancestors_stored (commands : ι → Command) (hw : Grounded w.store)
    (h : Interleaving.Steps (exec env) ParentsStored (started env w commands) c) :
    (∀ commit ancestor, commit ∈ c.store.store.commits →
      ReflTransGen (Names c.store.store) commit ancestor → ancestor ∈ c.store.store.commits) ∧
    ∀ commit, ¬ TransGen (Names c.store.store) commit commit := by
  have hground : Grounded c.store.store :=
    h.invariant (fun op w hw hop => grounded_exec op w hw hop) hw
  refine ⟨fun commit ancestor hcommit hreach => ?_, hground.acyclic⟩
  rcases ReflTransGen.cases_tail hreach with rfl | ⟨child, -, hname⟩
  · exact hcommit
  · exact hground.parents child ancestor hname

instance (w : World) : (op : Op) → Decidable (ParentsStored w op)
  | .saveCommit record => inferInstanceAs (Decidable (∀ parent ∈ record.parentIds, parent ∈ w.store.commits))
  | .now => isTrue trivial
  | .getCommit _ => isTrue trivial
  | .saveSnapshot _ _ _ => isTrue trivial
  | .loadSnapshot _ => isTrue trivial
  | .saveCommitGraphEdge _ => isTrue trivial
  | .getParents _ => isTrue trivial
  | .saveMemory _ => isTrue trivial
  | .getMemories _ => isTrue trivial

theorem ancestors_stored_demo :
    (∀ commit ancestor, commit ∈ demoRun.store.store.commits →
      ReflTransGen (Names demoRun.store.store) commit ancestor → ancestor ∈ demoRun.store.store.commits) ∧
    ∀ commit, ¬ TransGen (Names demoRun.store.store) commit commit := by
  have hok : (started demoEnv .empty demoCommands).OkAlong (exec demoEnv) ParentsStored demoSchedule := by
    decide +kernel
  exact ancestors_stored demoCommands grounded_empty (Interleaving.Steps.of_okAlong hok)

/-! ### Edges -/

/-- The edges that a command has still to store once its commit is saved. -/
def Owes : (op : Op) → op.Ans → String × String → Prop
  | .saveCommit record, .ok _, edge => edge.1 = record.commitId.hash ∧ edge.2 ∈ record.parentIds
  | _, _, _ => False

def Settles (owed : String × String) (op : Op) : Prop :=
  ∃ edge, op = .saveCommitGraphEdge edge ∧ edge.childId = owed.1 ∧ edge.parentId = owed.2

/-- A stored commit names the parent, and there is no edge yet. -/
def Due (w : World) (owed : String × String) : Prop :=
  Names w.store owed.1 owed.2 ∧ owed.2 ∉ w.store.getParents owed.1

theorem due_exec (op : Op) (w : World) (owed : String × String) (h : Due (exec env op w).2 owed) :
    Due w owed ∧ ¬ Settles owed op ∨ Owes op (exec env op w).1 owed := by
  -- A call that leaves commits and edges alone can neither make nor settle what is due.
  have hsame : (exec env op w).2.store.commits = w.store.commits →
      (exec env op w).2.store.edges = w.store.edges → Due w owed := by
    intro hcommits hedges
    refine ⟨names_of_commits_eq hcommits ▸ h.1, ?_⟩
    have hnot := h.2
    unfold MemoryStore.getParents at hnot ⊢
    rw [hedges] at hnot
    exact hnot
  cases op with
  | saveCommit record =>
      rcases exec_saveCommit env record w with ⟨-, heq⟩ | ⟨-, heq⟩
      · rw [heq] at hsame ⊢
        exact Or.inl ⟨hsame rfl rfl, fun ⟨edge, hedge, _⟩ => by cases hedge⟩
      · rw [heq] at h ⊢
        rcases names_insert h.1 with howed | hold
        · exact Or.inr howed
        · exact Or.inl ⟨⟨hold, h.2⟩, fun ⟨edge, hedge, _⟩ => by cases hedge⟩
  | saveSnapshot now commitId state =>
      refine Or.inl ⟨?_, fun ⟨edge, hedge, _⟩ => by cases hedge⟩
      rcases exec_saveSnapshot env now commitId state w with ⟨-, heq⟩ | ⟨-, heq⟩
      · rw [heq] at hsame
        exact hsame rfl rfl
      · rw [heq] at hsame
        exact hsame rfl rfl
  | saveCommitGraphEdge edge =>
      -- Edges are only appended: an edge that was there is there still, and the new one is no longer due.
      refine Or.inl ⟨⟨h.1, fun hmem => h.2 ?_⟩, ?_⟩
      · obtain ⟨edge', hedge', hparent⟩ := List.mem_map.1 hmem
        obtain ⟨hin, hchild⟩ := List.mem_filter.1 hedge'
        exact List.mem_map.2 ⟨edge', List.mem_filter.2 ⟨List.mem_append_left _ hin, hchild⟩, hparent⟩
      · rintro ⟨edge', heq, hchild, hparent⟩
        cases heq
        refine h.2 (List.mem_map.2 ⟨edge, List.mem_filter.2 ⟨?_, decide_eq_true hchild⟩, hparent⟩)
        exact List.mem_append_right _ (List.mem_singleton_self _)
  | now => exact Or.inl ⟨hsame rfl rfl, fun ⟨edge, hedge, _⟩ => by cases hedge⟩
  | getCommit _ => exact Or.inl ⟨hsame rfl rfl, fun ⟨edge, hedge, _⟩ => by cases hedge⟩
  | loadSnapshot _ => exact Or.inl ⟨hsame rfl rfl, fun ⟨edge, hedge, _⟩ => by cases hedge⟩
  | getParents _ => exact Or.inl ⟨hsame rfl rfl, fun ⟨edge, hedge, _⟩ => by cases hedge⟩
  | saveMemory _ => exact Or.inl ⟨hsame rfl rfl, fun ⟨edge, hedge, _⟩ => by cases hedge⟩
  | getMemories _ => exact Or.inl ⟨hsame rfl rfl, fun ⟨edge, hedge, _⟩ => by cases hedge⟩

theorem makes_saveEdges {childId parent : String} {edgeType : EdgeType} {parentIds : List String}
    (h : parent ∈ parentIds) :
    (saveEdges childId edgeType parentIds).Makes (Settles (childId, parent)) := by
  induction parentIds with
  | nil =>
      cases h
  | cons p parentIds ih =>
      refine Or.inr fun now => ?_
      rcases List.mem_cons.1 h with rfl | h
      · exact Or.inl ⟨_, rfl, rfl, rfl⟩
      · exact Or.inr fun _ => ih h

theorem pays_saveEdges (childId : String) (edgeType : EdgeType) (parentIds : List String) :
    (saveEdges childId edgeType parentIds).Pays Owes Settles := by
  induction parentIds with
  | nil =>
      trivial
  | cons p parentIds ih =>
      exact fun _ => ⟨fun _ => ⟨ih, fun _ h => h.elim⟩, fun _ h => h.elim⟩

/-- Once its commit is saved a command stores the edges to the parents, whatever else happens. -/
theorem pays_storeCommit (commitId : CommitId) (state : Value) (parentIds : List String)
    (edgeType : EdgeType) (message author : String) :
    (storeCommit commitId state parentIds edgeType message author).Pays Owes Settles := by
  have hsnapshot : (saveSnapshot commitId state).Pays Owes Settles :=
    fun _ => ⟨fun _ => ⟨trivial, fun _ h => h.elim⟩, fun _ h => h.elim⟩
  refine hsnapshot.andThen fun _ now => ⟨fun r => ?_, fun _ h => h.elim⟩
  cases r with
  | error e =>
      exact ⟨trivial, fun _ h => h.elim⟩
  | ok commit =>
      refine ⟨(pays_saveEdges _ _ _).bind fun _ => trivial, fun owed howed => ?_⟩
      obtain ⟨child, parent⟩ := owed
      obtain ⟨hchild, hparent⟩ := howed
      obtain rfl : child = commitId.hash := hchild
      have hmakes : (saveEdges commitId.hash edgeType parentIds).Makes (Settles (commitId.hash, parent)) :=
        makes_saveEdges hparent
      exact hmakes.bind_left _

theorem pays_of_spares {α : Type} {p : Program α} (h : p.Calls Op.Spares) : p.Pays Owes Settles := by
  refine h.pays fun op r owed hop howed => ?_
  cases op with
  | saveCommit record => exact hop
  | _ => exact howed

theorem spares_collectHistory (room : Nat) (history : List CommitRecord) (visited : Finset String)
    (queue : List String) : (collectHistory room history visited queue).Calls Op.Spares := by
  induction room generalizing history visited queue with
  | zero =>
      trivial
  | succ room ih =>
      show (nextCommit (collectHistory room) history visited queue).Calls Op.Spares
      induction queue with
      | nil =>
          trivial
      | cons commitHash queue ihq =>
          refine ⟨trivial, fun commit => ?_⟩
          cases commit with
          | none => exact ihq
          | some commit => exact ⟨trivial, fun _ => ih _ _ _⟩

theorem pays_program (command : Command) : (command.program env).Pays Owes Settles := by
  cases command with
  | init =>
      have hinit : (cmdInit env).Pays Owes Settles := (pays_storeCommit _ _ _ _ _ _).andThen fun _ => trivial
      exact hinit.andThen fun _ => trivial
  | snapshot input =>
      refine Proc.Pays.andThen ?_ fun _ => trivial
      unfold cmdSnapshot
      cases input.prepare env with
      | error e => trivial
      | ok prepared => exact (pays_storeCommit _ _ _ _ _ _).andThen fun _ => trivial
  -- Restoring and listing save no commit, so they owe nothing.
  | restore reference =>
      have hload : (loadSnapshot reference).Calls Op.Spares := ⟨trivial, fun _ => trivial⟩
      have hrestore : (cmdRestore reference).Pays Owes Settles := by
        unfold cmdRestore
        rw [Proc.bind_eq]
        exact (pays_of_spares hload).bind fun _ => trivial
      exact hrestore.andThen fun _ => trivial
  | log reference limit =>
      refine Proc.Pays.andThen ?_ fun _ => trivial
      unfold cmdLog
      split
      · trivial
      · exact (pays_of_spares (spares_collectHistory _ _ _ _)).bind fun _ => trivial
  | merge source target message currentDir =>
      refine Proc.Pays.andThen ?_ fun _ => trivial
      unfold cmdMerge
      refine Proc.Pays.andThen ?_ fun _ => trivial
      -- The memories come first and owe nothing; the merge commit then settles its own edges.
      refine (pays_of_spares (spares_synthesizeMemory _ _ _)).bind fun memories => ?_
      refine (pays_of_spares (spares_saveMemories _)).bind fun _ => ?_
      refine (pays_storeCommit _ _ _ _ _ _).andThen fun _ => ?_
      exact (pays_of_spares (spares_diffMemoryVectors _ _)).bind fun _ => trivial
  | fork schedule parent count branchPrefix =>
      refine Proc.Pays.andThen ?_ fun _ => trivial
      unfold forkAgentParallel
      cases slice? parent 0 8 with
      | none => trivial
      | some _ =>
          have hload : (loadSnapshot parent).Calls Op.Spares := ⟨trivial, fun _ => trivial⟩
          refine (pays_of_spares hload).andThen fun snapshot => ?_
          refine Proc.Pays.bind (Proc.Pays.par fun p hp => ?_) fun _ => trivial
          obtain ⟨i, -, rfl⟩ := List.mem_map.1 hp
          exact (pays_storeCommit _ _ _ _ _ _).andThen fun _ => trivial

/-- When no command is running, every parent that a stored commit names has its edge. -/
theorem edges_complete (hw : Sound w.store) (hedges : ∀ owed, ¬ Due w owed)
    (h : Runs env (started env w commands) c) (hdone : ∀ i, ∃ r, c.procs i = .ret r) {child parent : String} :
    Names c.store.store child parent ↔
      (∃ commit, c.store.store.getCommit child = some commit) ∧ parent ∈ c.store.store.getParents child := by
  have hcovered : Interleaving.Covered Owes Settles Due c :=
    h.covered due_exec ⟨fun i => pays_program (commands i), fun owed hdue => absurd hdue (hedges owed)⟩
  constructor
  · intro hname
    refine ⟨⟨hname.choose, hname.choose_spec.1⟩, ?_⟩
    by_contra hno
    exact hcovered.not_due hdone (child, parent) ⟨hname, hno⟩
  · rintro ⟨-, hparent⟩
    obtain ⟨edge, hedge, rfl⟩ := List.mem_map.1 hparent
    obtain ⟨hedge, hchild⟩ := List.mem_filter.1 hedge
    rw [← of_decide_eq_true hchild]
    exact ((runs_preserved hw h).1.sound hw).edge edge hedge

/-! ### The whole history -/

/-- The walk, run alone, is that of the store. -/
theorem run_collectHistory {limit fuel : Nat} {history found : List CommitRecord}
    {visited : Finset String} {queue : List String}
    (h : collect w.store.followed limit fuel history visited queue = some found) :
    (collectHistory (limit - history.length) history visited queue).run (exec env) w = (found, w) := by
  -- On the fuel of the store's walk; the walk of calls is bounded by the room that is left.
  induction fuel generalizing history visited queue with
  | zero =>
      cases h
  | succ fuel ih =>
      cases queue with
      | nil =>
          obtain rfl : history = found := Option.some.inj h
          cases limit - history.length <;> rfl
      | cons commitHash queue =>
          rw [collect] at h
          by_cases hfull : limit ≤ history.length
          · rw [if_pos hfull] at h
            cases h
            rw [Nat.sub_eq_zero_of_le hfull]
            rfl
          · rw [if_neg hfull] at h
            obtain ⟨room, hroom⟩ : ∃ room, limit - history.length = room + 1 :=
              Nat.exists_eq_succ_of_ne_zero (Nat.sub_ne_zero_of_lt (Nat.lt_of_not_le hfull))
            rw [hroom]
            show ((Proc.ret (w.store.getCommit commitHash)).bind _).run (exec env) w = (found, w)
            cases hcommit : w.store.getCommit commitHash with
            | none =>
                -- A commit that is not there is skipped and takes no room.
                have hnone : w.store.followed commitHash = none := by
                  rw [MemoryStore.followed, hcommit]
                  rfl
                rw [hnone] at h
                have hrest := ih h
                rw [hroom] at hrest
                exact hrest
            | some commit =>
                have hsome : w.store.followed commitHash =
                    some (commit, w.store.followedParents commitHash commit) := by
                  rw [MemoryStore.followed, hcommit]
                  rfl
                rw [hsome] at h
                have hrest := ih h
                have hless : limit - (history ++ [commit]).length = room := by
                  rw [List.length_append, List.length_singleton]
                  omega
                rw [hless] at hrest
                exact hrest

theorem run_log {start : String} {limit : Nat} (hstart : start ≠ "") {found : List CommitRecord}
    (h : w.store.getCommitHistory start limit = some found) :
    ((Command.log start limit).program env).run (exec env) w = (.ok (.history found), w) := by
  have hwalk : (getCommitHistory start limit).run (exec env) w = (found, w) := run_collectHistory h
  show ((cmdLog start limit).andThen _).run (exec env) w = _
  unfold cmdLog
  rw [if_neg hstart]
  refine Proc.run_andThen_ok _ ?_
  rw [Proc.run_bind, hwalk]
  rfl

theorem map_fst_followed (store : MemoryStore) (hash : String) :
    (store.followed hash).map Prod.fst = store.getCommit hash := by
  rw [MemoryStore.followed, Option.map_map]
  exact Option.map_id_apply

/-- When no command is running, `log` with room for all commits lists the stored ancestors of a commit, all
of them and each once. -/
theorem log_complete (commands : ι → Command) (hw : Sound w.store) (hedges : ∀ owed, ¬ Due w owed)
    (h : Runs env (started env w commands) c) (hdone : ∀ i, ∃ r, c.procs i = .ret r)
    {start : String} (hstart : start ≠ "") {limit : Nat}
    (hlimit : c.store.store.commits.keys.card ≤ limit) :
    ∃ (history : List CommitRecord) (hashes : List String),
      ((Command.log start limit).program env).run (exec env) c.store =
        (.ok (.history history), c.store) ∧ hashes.Nodup ∧
      history.map some = hashes.map c.store.store.getCommit ∧
      ∀ k, k ∈ hashes ↔ k ∈ c.store.store.commits ∧ ReflTransGen (Names c.store.store) start k := by
  have hnames : ∀ {child parent : String}, Names c.store.store child parent ↔
      (∃ commit, c.store.store.getCommit child = some commit) ∧
        parent ∈ c.store.store.getParents child := edges_complete hw hedges h hdone
  obtain ⟨hashes, history, hhistory, hcollected⟩ := collect_spec c.store.store.followed start
    (fun _ _ _ => MemoryStore.mem_mentioned) limit
    (Nat.succ_lt_succ (Nat.lt_succ_of_le c.store.store.card_mentioned))
  have hrecords : history.map some = hashes.map c.store.store.getCommit := by
    rw [hcollected.records]
    exact List.map_congr_left fun hash _ => map_fst_followed c.store.store hash
  refine ⟨history, hashes, run_log hstart hhistory, hcollected.nodup, hrecords, fun k => ⟨fun hk => ?_, ?_⟩⟩
  · refine ⟨?_, ReflTransGen.mono ?_ _ _ (hcollected.sound k hk)⟩
    · have hmem : c.store.store.getCommit k ∈ history.map some := hrecords ▸ List.mem_map_of_mem hk
      obtain ⟨commit, -, hcommit⟩ := List.mem_map.1 hmem
      exact Finmap.mem_of_lookup_eq_some hcommit.symm
    · intro child parent hsucc
      obtain ⟨commit, hcommit, hparent⟩ := MemoryStore.parent_of_storedSucc hsucc
      unfold MemoryStore.parents at hparent
      by_cases hnil : c.store.store.getParents child = []
      · simp only [if_pos hnil] at hparent
        exact ⟨commit, hcommit, hparent⟩
      · simp only [if_neg hnil] at hparent
        exact hnames.2 ⟨⟨commit, hcommit⟩, hparent⟩
  · rintro ⟨hstored, hreach⟩
    refine hcollected.complete_of_le (fun _ h => Finmap.mem_keys.2 (MemoryStore.followed_ne_none.1 h)) hlimit
      (ReflTransGen.mono ?_ _ _ hreach) (MemoryStore.followed_ne_none.2 hstored)
    rintro child parent hname
    obtain ⟨⟨commit, hcommit⟩, hparent⟩ := hnames.1 hname
    -- the parent has an edge, so the edges are followed
    have hne : c.store.store.getParents child ≠ [] := List.ne_nil_of_mem hparent
    refine MemoryStore.storedSucc_of_sureParent ⟨commit, hcommit, ?_, Or.inl hne⟩
    unfold MemoryStore.parents
    simp only [if_neg hne]
    exact hparent

theorem due_empty (owed : String × String) : ¬ Due .empty owed := by
  rintro ⟨⟨commit, hcommit, -⟩, -⟩
  simp [MemoryStore.getCommit, MemoryStore.empty, World.empty] at hcommit

theorem log_complete_demo :
    ∃ (history : List CommitRecord) (hashes : List String),
      ((Command.log stepOneId.hash 10).program demoEnv).run (exec demoEnv) demoEnd.store =
        (.ok (.history history), demoEnd.store) ∧ hashes.Nodup ∧
      history.map some = hashes.map demoEnd.store.store.getCommit ∧
      ∀ k, k ∈ hashes ↔ k ∈ demoEnd.store.store.commits ∧
        ReflTransGen (Names demoEnd.store.store) stepOneId.hash k := by
  have hdone : ∀ i, ∃ r, demoEnd.procs i = .ret r
    | 0 => ⟨_, rfl⟩
    | 1 => ⟨_, rfl⟩
    | 2 => ⟨_, rfl⟩
  exact log_complete demoCommands sound_empty due_empty (runs_demoRun.trans runs_demoEnd) hdone (by decide)
    (by decide)

/-! ### One commit, one command -/

/-- The ids of the commits that an output announces. -/
def Output.created : Output → List String
  | .initialized commitId => [commitId.hash]
  | .snapshot commitId => [commitId.hash]
  | .merged result => [result.mergeCommitId.hash]
  | .forked result => result.commitIds.map CommitId.hash
  | .restored _ => []
  | .history _ => []

/-- The commit was saved under this hash. -/
def Saved (hash : String) : (op : Op) → op.Ans → Prop
  | .saveCommit record, .ok _ => record.commitId.hash = hash
  | _, _ => False

theorem saved_exec {hash : String} (op : Op) (w : World) (h : Saved hash op (exec env op w).1) :
    hash ∉ w.store.commits ∧ hash ∈ (exec env op w).2.store.commits := by
  cases op with
  | saveCommit record =>
      rcases exec_saveCommit env record w with ⟨-, heq⟩ | ⟨hnew, heq⟩
      · rw [heq] at h
        exact h.elim
      · rw [heq] at h ⊢
        obtain rfl : record.commitId.hash = hash := h
        exact ⟨hnew, Finmap.mem_insert.2 (Or.inl rfl)⟩
  | _ => exact h.elim

theorem needs_storeCommit (commitId : CommitId) (state : Value) (parentIds : List String)
    (edgeType : EdgeType) (message author : String) :
    (storeCommit commitId state parentIds edgeType message author).Needs (Saved commitId.hash)
      fun r => ∃ a, r = .ok a := by
  have herror : ∀ e : CommandError, ¬ ∃ a : Unit, Except.error e = .ok a := by
    rintro e ⟨a, ha⟩
    cases ha
  refine Proc.needs_andThen _ (fun _ now _ r hr => ?_) herror
  cases r with
  | error e =>
      exact herror _
  | ok commit =>
      exact absurd rfl hr

/-- A program that goes on once a commit is stored, and can only announce that commit. -/
theorem needs_storing {β : Type} {hash : String} {P : β → Prop} (commitId : CommitId) (state : Value)
    (parentIds : List String) (edgeType : EdgeType) (message author : String)
    {f : Unit → Program (Except CommandError β)}
    (hf : commitId.hash ≠ hash → ∀ u, (f u).Needs (Saved hash) fun r => ∃ b, r = .ok b ∧ P b) :
    ((storeCommit commitId state parentIds edgeType message author).andThen f).Needs (Saved hash)
      fun r => ∃ b, r = .ok b ∧ P b := by
  have herror : ∀ e : CommandError, ¬ ∃ b, Except.error e = .ok b ∧ P b := by
    rintro e ⟨b, hb, -⟩
    cases hb
  by_cases hhash : commitId.hash = hash
  · subst hhash
    exact (needs_storeCommit _ _ _ _ _ _).andThen herror
  · exact Proc.needs_andThen _ (hf hhash) herror

/-- Passing on the result of a command. -/
theorem needs_output {β : Type} {hash : String} {P : β → Prop} {p : Program (Except CommandError β)}
    (hp : p.Needs (Saved hash) fun r => ∃ b, r = .ok b ∧ P b) {g : β → Output}
    (hg : ∀ b, hash ∈ (g b).created → P b) :
    (p.andThen fun b => pure (.ok (g b))).Needs (Saved hash)
      fun r => ∃ output, r = .ok output ∧ hash ∈ output.created := by
  refine hp.bind fun r hr => ?_
  cases r with
  | error e =>
      rintro ⟨output, houtput, -⟩
      cases houtput
  | ok b =>
      rintro ⟨output, houtput, hmem⟩
      cases houtput
      exact hr ⟨b, rfl, hg b hmem⟩

theorem not_ok_of_ne {β : Type} {P : β → Prop} {b : β} (h : ¬ P b) :
    ¬ ∃ b', (.ok b : Except CommandError β) = .ok b' ∧ P b' := by
  rintro ⟨b', hb, hP⟩
  cases hb
  exact h hP

/-- A command announces a commit only after it has saved it. -/
theorem needs_program (command : Command) (hash : String) :
    (command.program env).Needs (Saved hash)
      fun r => ∃ output, r = .ok output ∧ hash ∈ output.created := by
  cases command with
  | init =>
      refine needs_output (P := fun commitId => commitId.hash = hash) ?_ fun commitId hmem =>
        (List.mem_singleton.1 hmem).symm
      exact needs_storing _ _ _ _ _ _ fun hne _ => not_ok_of_ne hne
  | snapshot input =>
      refine needs_output (P := fun commitId => commitId.hash = hash) ?_ fun commitId hmem =>
        (List.mem_singleton.1 hmem).symm
      unfold cmdSnapshot
      cases input.prepare env with
      | error e =>
          rintro ⟨b, hb, -⟩
          cases hb
      | ok prepared =>
          exact needs_storing _ _ _ _ _ _ fun hne _ => not_ok_of_ne hne
  | restore reference =>
      refine Proc.needs_andThen _ (fun state => not_ok_of_ne List.not_mem_nil) ?_
      rintro e ⟨b, hb, -⟩
      cases hb
  | log reference limit =>
      refine Proc.needs_andThen _ (fun commits => not_ok_of_ne List.not_mem_nil) ?_
      rintro e ⟨b, hb, -⟩
      cases hb
  | merge source target message currentDir =>
      refine needs_output (P := fun result => result.mergeCommitId.hash = hash) ?_ fun result hmem =>
        (List.mem_singleton.1 hmem).symm
      unfold cmdMerge
      have hmerge : (semanticMerge env source target
          (message.getD ("Merge commit '" ++ source ++ "' into '" ++ target ++ "'")) "agent-git").Needs
          (Saved hash) fun r => ∃ result, r = .ok result ∧ result.mergeCommitId.hash = hash := by
        refine Proc.needs_bind _ fun memories => Proc.needs_bind _ fun _ => ?_
        exact needs_storing _ _ _ _ _ _ fun hne _ => Proc.needs_bind _ fun delta => not_ok_of_ne hne
      refine hmerge.bind fun r hr => ?_
      cases r with
      | error e =>
          rintro ⟨b, hb, -⟩
          cases hb
      | ok result =>
          cases currentDir with
          | error e =>
              rintro ⟨b, hb, -⟩
              cases hb
          | ok _ => exact hr
  | fork schedule parent count branchPrefix =>
      refine needs_output (P := fun result => hash ∈ result.commitIds.map CommitId.hash) ?_
        fun result hmem => hmem
      unfold forkAgentParallel
      cases slice? parent 0 8 with
      | none =>
          rintro ⟨b, hb, -⟩
          cases hb
      | some _ =>
          refine Proc.needs_andThen _ (fun snapshot => ?_) ?_
          · refine Proc.Needs.bind (W := fun results => ∃ r ∈ results, ∃ fork, r = .ok fork ∧
              fork.2.hash = hash) (Proc.Needs.par fun p hp => ?_) fun results hresults => ?_
            · obtain ⟨i, -, rfl⟩ := List.mem_map.1 hp
              exact needs_storing _ _ _ _ _ _ fun hne _ => not_ok_of_ne hne
            -- An announced fork is the answer of one of the tasks, and that task has saved the commit.
            · rintro ⟨result, hresult, hmem⟩
              cases hjoin : joinAll results with
              | error e =>
                  rw [hjoin] at hresult
                  cases hresult
              | ok forks =>
                  rw [hjoin] at hresult
                  cases hresult
                  obtain ⟨commitId, hid, hhash⟩ := List.mem_map.1 hmem
                  obtain ⟨fork, hfork, rfl⟩ := List.mem_map.1 hid
                  refine hresults ⟨.ok fork, ?_, fork, rfl, hhash⟩
                  rw [joinAll_eq_ok hjoin]
                  exact List.mem_map_of_mem hfork
          · rintro e ⟨b, hb, -⟩
            cases hb

/-- A commit is announced by one command at most, however many try to store it at once. -/
theorem created_once (commands : ι → Command) (w : World) (h : Runs env (started env w commands) c)
    {i j : ι} (hne : i ≠ j) {output : Output} (hi : c.procs i = .ret (.ok output)) {hash : String}
    (hcreated : hash ∈ output.created) {output' : Output} (hj : c.procs j = .ret (.ok output')) :
    hash ∉ output'.created := by
  intro hcreated'
  have hwinner : Interleaving.OneWinner (Saved hash) (fun w => hash ∈ w.store.commits)
      (fun r => ∃ output, r = .ok output ∧ hash ∈ output.created) c :=
    h.oneWinner (fun op w => saved_exec op w) (fun op w hmem => (grows_exec _ op w).mem_commits hmem)
      fun k => needs_program (commands k) hash
  exact hne (hwinner.unique hi hj ⟨output, rfl, hcreated⟩ ⟨output', rfl, hcreated'⟩)

theorem created_once_demo : "5bfb72c8c4b3aa78265e20dce4bad578d07e078fa114eb26d1d26497525c6cf0" ∉
    (Output.initialized (initialId demoEnv)).created :=
  created_once (i := 1) (j := 0) demoCommands .empty runs_demoRun (by decide) demoRun_snapshot
    (List.mem_singleton_self _) rfl

end Runs

/-! ## A merge alone -/

section Alone

variable {env : Env} {w : World}

theorem run_resolveConflicts {commitA commitB newCommitId : String} {conflicts : List MemoryConflict}
    (now : Nat → Timestamp) (order : Nat → Iteration String) {n : Nat}
    (hnow : ∀ i, i < conflicts.length → env.now (w.readings + i) = now (n + i)) :
    (resolveConflicts env commitA commitB newCommitId conflicts).run (exec env) w =
      ((conflicts.zipIdx n).map fun x =>
        SemanticMerge.resolvedMemory { env with now := now, order := order } (now x.2) commitA commitB
          newCommitId x.1,
        { w with readings := w.readings + conflicts.length }) := by
  induction conflicts generalizing w n with
  | nil =>
      rfl
  | cons conflict conflicts ih =>
      have hfirst : env.now w.readings = now n := hnow 0 (Nat.zero_lt_succ _)
      have hrest := ih (w := { w with readings := w.readings + 1 }) (n := n + 1) (fun i hi => by
        have hnext := hnow (i + 1) (Nat.succ_lt_succ hi)
        rw [Nat.add_assoc n 1 i, Nat.add_comm 1 i, ← hnext]
        exact congrArg env.now (Nat.add_right_comm w.readings 1 i))
      show ((resolveConflicts env commitA commitB newCommitId conflicts).bind _).run (exec env)
        { w with readings := w.readings + 1 } = _
      rw [Proc.run_bind, hrest, List.zipIdx_cons, List.map_cons, List.length_cons]
      show (SemanticMerge.resolvedMemory env (env.now w.readings) commitA commitB newCommitId conflict :: _,
        _) = _
      rw [hfirst, Nat.add_assoc w.readings 1, Nat.add_comm 1]
      rfl

theorem run_saveMemories (memories : List MemoryRecord) (w : World) :
    (saveMemories memories).run (exec env) w =
      ((), { w with store := SemanticMerge.saveMemories w.store memories }) := by
  induction memories generalizing w with
  | nil =>
      rfl
  | cons memory memories ih =>
      exact ih { w with store := w.store.saveMemory memory }

section Finish

variable {commitA commitB message author : String} (now : Nat → Timestamp)
  (order : Nat → Iteration String)

/-- From the commit on. -/
theorem run_commitMerge {n : Nat} (hnow : ∀ i, i < 3 → env.now (w.readings + i) = now (n + i))
    (horder : ∀ i, i < 2 → env.order (w.walks.length + i) = order (2 + i)) :
    let finished := SemanticMerge.commitMerge { env with now := now, order := order } w.store n
      (SemanticMerge.mergeId env commitA commitB) commitA commitB message author
    let alone := ((storeRecord (SemanticMerge.mergeId env commitA commitB) [commitA, commitB] .merge message
      author).andThen fun _ => summarizeMerge env commitA commitB).run (exec env) w
    alone.1 = finished.1.mapError .state ∧ alone.2.store = finished.2 := by
  intro finished alone
  have h0 : env.now w.readings = now n := hnow 0 (by decide)
  have h1 : env.now (w.readings + 1) = now (n + 1) := hnow 1 (by decide)
  have h2 : env.now (w.readings + 2) = now (n + 2) := hnow 2 (by decide)
  let record :=
    CommitRecord.new (now n) (SemanticMerge.mergeId env commitA commitB) [commitA, commitB] message author
  let w₁ : World := { w with readings := w.readings + 1 }
  have halone : alone = (((saveCommit record).andThen fun _ =>
      (saveEdges record.commitId.hash .merge [commitA, commitB]).bind fun _ => .ret (.ok ())).andThen
        fun _ => summarizeMerge env commitA commitB).run (exec env) w₁ := by
    show ((Proc.andThen (saveCommit (CommitRecord.new (env.now w.readings) _ _ _ _)) _).andThen _).run
      (exec env) w₁ = _
    rw [h0]
    rfl
  have hsaved : (saveCommit record).run (exec env) w₁ =
      ((w.store.saveCommit record).1.mapError .state,
        ⟨(w.store.saveCommit record).2, w.readings + 1, w.walks⟩) := rfl
  rw [Proc.andThen_assoc] at halone
  by_cases hcommit : record.commitId.hash ∈ w.store.commits
  · rw [saveCommit_of_mem hcommit] at hsaved
    have hfinished : finished =
        (.error (.transaction ("Commit already exists: " ++ record.commitId.hash)), w.store) := by
      show SemanticMerge.commitMerge _ _ _ _ _ _ _ _ = _
      unfold SemanticMerge.commitMerge
      dsimp only
      rw [saveCommit_of_mem hcommit]
    rw [halone, Proc.run_andThen_error (exec env) hsaved, hfinished]
    exact ⟨rfl, rfl⟩
  · rw [saveCommit_of_notMem hcommit] at hsaved
    -- the store with the commit and the edges, and what is returned, given what the clock and the map show
    let committed : MemoryStore :=
      { w.store with commits := w.store.commits.insert record.commitId.hash (storedCommit record) }
    let linked (t t' : Timestamp) : MemoryStore :=
      (committed.saveCommitGraphEdgeTyped t record.commitId.hash commitA .merge).saveCommitGraphEdgeTyped t'
        record.commitId.hash commitB .merge
    let result (store : MemoryStore) (orderA orderB : Iteration String) : MergeResult :=
      mergeSummary env commitA commitB
        (SemanticMerge.diffMemoryVectors store orderA orderB commitA commitB)
    have halone₁ : alone.1 = .ok (result (linked (env.now (w.readings + 1)) (env.now (w.readings + 2)))
          (env.order w.walks.length) (env.order (w.walks.length + 1))) ∧
        alone.2.store = linked (env.now (w.readings + 1)) (env.now (w.readings + 2)) := by
      rw [halone, Proc.run_andThen_ok (exec env) hsaved]
      exact ⟨rfl, rfl⟩
    have hfinished : finished = (.ok (result (linked (now (n + 1)) (now (n + 2))) (order 2) (order 3)),
        linked (now (n + 1)) (now (n + 2))) := by
      show SemanticMerge.commitMerge _ _ _ _ _ _ _ _ = _
      unfold SemanticMerge.commitMerge
      dsimp only
      rw [saveCommit_of_notMem hcommit]
      rfl
    have ho0 : env.order w.walks.length = order 2 := horder 0 (by decide)
    have ho1 : env.order (w.walks.length + 1) = order 3 := horder 1 (by decide)
    rw [halone₁.1, halone₁.2, hfinished, h1, h2, ho0, ho1]
    exact ⟨rfl, rfl⟩

/-- Once the memories are saved. -/
theorem run_storeMerge {count : Nat} (hnow : ∀ i, i < 4 → env.now (w.readings + i) = now (count + i))
    (horder : ∀ i, i < 2 → env.order (w.walks.length + i) = order (2 + i)) :
    let finished : Except StateError MergeResult × MemoryStore := match w.store.saveSnapshot env.fmt
        (now count) (SemanticMerge.mergeId env commitA commitB) (SemanticMerge.mergeState commitA commitB count) with
      | (.error e, store) => (.error e, store)
      | (.ok _, store) => SemanticMerge.commitMerge { env with now := now, order := order } store (count + 1)
          (SemanticMerge.mergeId env commitA commitB) commitA commitB message author
    let alone := ((storeCommit (SemanticMerge.mergeId env commitA commitB)
      (SemanticMerge.mergeState commitA commitB count) [commitA, commitB] .merge message author).andThen
        fun _ => summarizeMerge env commitA commitB).run (exec env) w
    alone.1 = finished.1.mapError .state ∧ alone.2.store = finished.2 := by
  intro finished alone
  let commitId := SemanticMerge.mergeId env commitA commitB
  let state := SemanticMerge.mergeState commitA commitB count
  have h0 : env.now w.readings = now count := hnow 0 (by decide)
  have hsaved : (saveSnapshot commitId state).run (exec env) w =
      ((w.store.saveSnapshot env.fmt (now count) commitId state).1.mapError .state,
        ⟨(w.store.saveSnapshot env.fmt (now count) commitId state).2, w.readings + 1, w.walks⟩) := by
    rw [← h0]
    rfl
  have halone : alone = ((saveSnapshot commitId state).andThen fun _ =>
      (storeRecord commitId [commitA, commitB] .merge message author).andThen
        fun _ => summarizeMerge env commitA commitB).run (exec env) w :=
    congrArg (fun p => Proc.run (exec env) p w) (Proc.andThen_assoc _ _ _)
  -- An existing snapshot ends the merge in both; otherwise the clock has been read once more.
  by_cases hsnapshot : commitId.hash ∈ w.store.snapshots
  · rw [saveSnapshot_of_mem hsnapshot] at hsaved
    have hfinished : finished =
        (.error (.transaction ("Snapshot already exists for commit " ++ commitId.hash)), w.store) := by
      show (match w.store.saveSnapshot _ _ commitId _ with | (.error e, store) => _ | (.ok _, store) => _) = _
      rw [saveSnapshot_of_mem hsnapshot]
    rw [halone, Proc.run_andThen_error (exec env) hsaved, hfinished]
    exact ⟨rfl, rfl⟩
  · rw [saveSnapshot_of_notMem hsnapshot] at hsaved
    let saved : MemoryStore :=
      { w.store with
        snapshots := w.store.snapshots.insert commitId.hash
          (storedSnapshot env.fmt (now count) commitId state) }
    have hfinished : finished = SemanticMerge.commitMerge { env with now := now, order := order } saved
        (count + 1) commitId commitA commitB message author := by
      show (match w.store.saveSnapshot _ _ commitId _ with | (.error e, store) => _ | (.ok _, store) => _) = _
      rw [saveSnapshot_of_notMem hsnapshot]
    rw [halone, Proc.run_andThen_ok (exec env) hsaved, hfinished]
    refine run_commitMerge now order (fun i hi => ?_) horder
    show env.now (w.readings + 1 + i) = now (count + 1 + i)
    rw [Nat.add_assoc, Nat.add_assoc, Nat.add_comm 1 i]
    exact hnow (i + 1) (Nat.succ_lt_succ hi)

end Finish

/-- A merge that runs alone is `semanticMerge` of the store, for what the clock and the map show it. -/
theorem semanticMerge_alone (env : Env) (w : World) (commitA commitB message author : String) :
    ∃ (now : Nat → Timestamp) (order : Nat → Iteration String),
      let merged := SemanticMerge.semanticMerge { env with now := now, order := order } w.store commitA commitB
        message author
      let alone := (semanticMerge env commitA commitB message author).run (exec env) w
      alone.1 = merged.1.mapError .state ∧ alone.2.store = merged.2 := by
  let memoriesA := w.store.getMemories (env.order w.walks.length) commitA
  let memoriesB := w.store.getMemories (env.order (w.walks.length + 1)) commitB
  let delta := SemanticMerge.diffMemories memoriesA memoriesB
  let walked := (commitB, memoriesB) :: (commitA, memoriesA) :: w.walks
  let newCommitId := (SemanticMerge.mergeId env commitA commitB).hash
  let k := delta.conflicts.length
  let count := delta.onlyInA.length + delta.onlyInB.length + delta.identical.length + k
  -- the clock is read for the conflicts, and then for the snapshot, the commit and the edges
  let now (i : Nat) : Timestamp :=
    if i < k then env.now (w.readings + i) else env.now (w.readings + k + (i - count))
  let order (i : Nat) : Iteration String := env.order (w.walks.length + i)
  let memories := SemanticMerge.synthesize { env with now := now, order := order } commitA commitB newCommitId
    delta
  have hlength : memories.length = count := by
    show (SemanticMerge.synthesize _ _ _ _ _).length = _
    simp [SemanticMerge.synthesize, count, k, Nat.add_assoc]
  have hsynthesize : (synthesizeMemory env commitA commitB newCommitId).run (exec env) w =
      (memories, ⟨w.store, w.readings + k, walked⟩) := by
    show ((resolveConflicts env commitA commitB newCommitId delta.conflicts).bind _).run (exec env)
      { w with walks := walked } = _
    rw [Proc.run_bind, run_resolveConflicts now order (n := 0) ?_]
    · rfl
    · intro i hi
      show env.now (w.readings + i) = if 0 + i < k then _ else _
      rw [if_pos (by omega), Nat.zero_add]
  refine ⟨now, order, ?_⟩
  intro merged alone
  have halone : alone = ((storeCommit (SemanticMerge.mergeId env commitA commitB)
      (SemanticMerge.mergeState commitA commitB memories.length) [commitA, commitB] .merge message
        author).andThen fun _ => summarizeMerge env commitA commitB).run (exec env)
      ⟨SemanticMerge.saveMemories w.store memories, w.readings + k, walked⟩ := by
    show ((synthesizeMemory env commitA commitB newCommitId).bind _).run (exec env) w = _
    rw [Proc.run_bind, hsynthesize, Proc.run_bind, run_saveMemories]
  rw [halone]
  refine run_storeMerge (w := ⟨SemanticMerge.saveMemories w.store memories, w.readings + k, walked⟩)
    now order (fun i _ => ?_) fun i _ => ?_
  · show env.now (w.readings + k + i) = if memories.length + i < k then _ else _
    rw [if_neg (by omega), hlength, Nat.add_sub_cancel_left]
  · exact congrArg env.order (Nat.add_assoc w.walks.length 2 i)

end Alone

end VersionControl
end Cli
end Aivcs
