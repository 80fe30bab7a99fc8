import Aivcs.Lib.Hash
import Aivcs.State.Types

/-!
# IssueGraph.Branches — an issue with branches of commits

`IssueGraph` of `lib.rs`: an issue keeps branches by name, each a list of commits, and one of them is
current.  A branch starts as a copy of the current one, a commit goes to the end of the current one and
`semanticMerge` splices the commits a branch does not have after its own.

A call gets the identifiers it draws and its time as arguments; one time stands for all the readings of
the clock within a call.  A call on `&mut self` returns its answer with the graph after it, and `none` is
the `expect` that fails.
-/

namespace Aivcs
namespace IssueGraph

open Aivcs.Lib Aivcs.State

abbrev Uuid : Type := String

inductive IssueState where
  | planned
  | exploration
  | executing
  | verified
  | closed
  deriving DecidableEq

structure IssueCommit (Value : Type) where
  issueRef : String
  id : Uuid
  parentCommitId : Option Uuid
  state : IssueState
  intent : String
  acceptanceCriteria : List String
  evidenceRefs : List String
  agentRefs : List String
  repoRefs : List String
  prRefs : List String
  ciRefs : List String
  riskClass : String
  policyClaims : HashMap String String
  createdBy : String
  createdAt : Timestamp
  message : String
  executionState : Option Value
  diffSummary : Option String

structure IssueBranch (Value : Type) where
  name : String
  commits : List (IssueCommit Value)

structure LedgerEntry (Value : Type) where
  timestamp : Timestamp
  actor : String
  action : String
  metadata : Option Value

structure Graph (Value : Type) where
  id : Uuid
  title : String
  state : IssueState
  intent : String
  constraints : List String
  branches : HashMap String (IssueBranch Value)
  currentBranch : String
  ledger : List (LedgerEntry Value)
  createdAt : Timestamp
  updatedAt : Timestamp

namespace Graph

variable {Value : Type}

def new (id : Uuid) (title intent : String) (now : Timestamp) : Graph Value :=
  { id := id
    title := title
    state := .planned
    intent := intent
    constraints := []
    branches := (∅ : HashMap String (IssueBranch Value)).insert "main" ⟨"main", []⟩
    currentBranch := "main"
    ledger := []
    createdAt := now
    updatedAt := now }

def addConstraint (g : Graph Value) (constraint : String) (now : Timestamp) : Graph Value :=
  { g with constraints := g.constraints ++ [constraint], updatedAt := now }

def addLedgerEntry (g : Graph Value) (actor action : String) (metadata : Option Value)
    (now : Timestamp) : Graph Value :=
  { g with ledger := g.ledger ++ [⟨now, actor, action, metadata⟩], updatedAt := now }

def checkout (g : Graph Value) (branchName : String) (now : Timestamp) :
    Except String Unit × Graph Value :=
  if branchName ∉ g.branches then
    (.error ("Branch '" ++ branchName ++ "' does not exist"), g)
  else
    (.ok (), ({ g with currentBranch := branchName } : Graph Value).addLedgerEntry "system"
      ("checkout branch '" ++ branchName ++ "'") none now)

def createBranch (g : Graph Value) (name : String) (now : Timestamp) :
    Except String Unit × Graph Value :=
  if name ∈ g.branches then
    (.error ("Branch '" ++ name ++ "' already exists"), g)
  else
    -- A branch starts as a copy: its commits are those of the current one.
    let currentCommits := ((g.branches.lookup g.currentBranch).map IssueBranch.commits).getD []
    let g := { g with branches := g.branches.insert name ⟨name, currentCommits⟩ }
    (.ok (), g.addLedgerEntry "system"
      ("create branch '" ++ name ++ "' from '" ++ g.currentBranch ++ "'") none now)

def latestCommit (g : Graph Value) : Option (IssueCommit Value) :=
  (g.branches.lookup g.currentBranch).bind fun b => b.commits.getLast?

/-- Push a commit to the current branch and enter it in the ledger. -/
def push (g : Graph Value) (commit : IssueCommit Value) (now : Timestamp) :
    Option (Uuid × Graph Value) :=
  (g.branches.lookup g.currentBranch).map fun branch =>
    let branch := { branch with commits := branch.commits ++ [commit] }
    let g := { g with branches := g.branches.insert g.currentBranch branch }
    (commit.id, g.addLedgerEntry commit.createdBy ("commit: " ++ commit.id) none now)

def commit (g : Graph Value) (message createdBy : String) (executionState : Option Value)
    (diffSummary : Option String) (newId : Uuid) (now : Timestamp) :
    Option (Uuid × Graph Value) :=
  g.push
    { issueRef := "issue:" ++ g.id
      id := newId
      parentCommitId := g.latestCommit.map IssueCommit.id
      state := g.state
      intent := g.intent
      acceptanceCriteria := g.constraints
      evidenceRefs := []
      agentRefs := []
      repoRefs := []
      prRefs := []
      ciRefs := []
      riskClass := "low"
      policyClaims := ∅
      createdBy := createdBy
      createdAt := now
      message := message
      executionState := executionState
      diffSummary := diffSummary }
    now

def commitDetailed (g : Graph Value) (commit : IssueCommit Value) (now : Timestamp) :
    Option (Uuid × Graph Value) :=
  g.push { commit with parentCommitId := g.latestCommit.map IssueCommit.id } now

def semanticMerge (g : Graph Value) (targetBranch sourceBranch : String) (now : Timestamp) :
    Except String Unit × Graph Value :=
  match g.branches.lookup sourceBranch with
  | none => (.error "Source branch not found", g)
  | some source =>
      match g.branches.lookup targetBranch with
      | none => (.error "Target branch not found", g)
      | some target =>
          -- The ids are collected before the loop: what is pushed in it is not looked up.
          let existingIds := target.commits.map IssueCommit.id
          let missing := source.commits.filter fun c => c.id ∉ existingIds
          let target := { target with commits := target.commits ++ missing }
          let g := { g with branches := g.branches.insert targetBranch target }
          (.ok (), g.addLedgerEntry "system"
            ("semantic_merge " ++ sourceBranch ++ " into " ++ targetBranch) none now)

end Graph

/-! ## Calls -/

inductive GraphCall (Value : Type) where
  | createBranch (name : String) (now : Timestamp)
  | checkout (branchName : String) (now : Timestamp)
  | commit (message createdBy : String) (executionState : Option Value)
      (diffSummary : Option String) (newId : Uuid) (now : Timestamp)
  | commitDetailed (commit : IssueCommit Value) (now : Timestamp)
  | semanticMerge (targetBranch sourceBranch : String) (now : Timestamp)

namespace Graph

variable {Value : Type}

def step (g : Graph Value) : GraphCall Value → Graph Value
  | .createBranch name now => (g.createBranch name now).2
  | .checkout branchName now => (g.checkout branchName now).2
  | .commit message createdBy executionState diffSummary newId now =>
      ((g.commit message createdBy executionState diffSummary newId now).map Prod.snd).getD g
  | .commitDetailed commit now => ((g.commitDetailed commit now).map Prod.snd).getD g
  | .semanticMerge targetBranch sourceBranch now =>
      (g.semanticMerge targetBranch sourceBranch now).2

/-- The ids of all commits of all branches. -/
def commitIds (g : Graph Value) : Finset Uuid :=
  g.branches.keys.biUnion fun name =>
    ((g.branches.lookup name).elim [] fun b => b.commits.map IssueCommit.id).toFinset

/-- The id of a commit that is made is new to the graph, whether it is drawn or handed in. -/
def FreshId (g : Graph Value) : GraphCall Value → Prop
  | .commit _ _ _ _ newId _ => newId ∉ g.commitIds
  | .commitDetailed commit _ => commit.id ∉ g.commitIds
  | _ => True

end Graph

end IssueGraph
end Aivcs
