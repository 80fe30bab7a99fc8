import Mathlib.Data.String.Basic
import Aivcs.Lib.Kahn

/-!
# MultiRepo.Graph — the cross-repo dependency graph

`RepoDependencyGraph` of `multi_repo/graph.rs` with its insertion-time cycle check, the topological
order, the execution plan and the parallel groups of a plan.

The walks over hash maps and hash sets take their order from a `HashOrder`, one for each call.  A
call that would panic (a missing map entry behind an `unwrap` or an index, a counter below zero) or
not return is `none`.
-/

namespace Aivcs
namespace MultiRepo

open Aivcs.Lib

/-- The errors this layer makes itself. -/
inductive MultiRepoError where
  | dependencyCycle (repos : List String)
  | repoNotFound (repo : String)
  | storage (detail : String)
  deriving DecidableEq, Repr

structure RepoNode where
  repoId : String
  displayName : String
  remoteUrl : Option String
  deriving DecidableEq, Repr

/-- One step of a repo-aware execution plan. -/
structure RepoStep where
  position : Nat
  repo : RepoNode
  dependsOn : List String
  parallelizable : Bool
  deriving DecidableEq, Repr

structure RepoExecutionPlan where
  title : String
  steps : List RepoStep
  deriving DecidableEq, Repr

/-! ## Parallel groups -/

/-- The accumulators of `parallel_groups`: the closed groups, the open one and its ids. -/
structure Grouping where
  groups : List (List RepoStep)
  current : List RepoStep
  currentIds : Finset String

namespace Grouping

/-- Close the open group, if there is anything in it. -/
def close (g : Grouping) : Grouping :=
  if g.current = [] then g else ⟨g.groups ++ [g.current], [], ∅⟩

/-- Put a step into the open group. -/
def push (g : Grouping) (step : RepoStep) : Grouping :=
  { g with
    current := g.current ++ [step]
    currentIds := insert step.repo.repoId g.currentIds }

/-- The body of the loop. -/
def add (g : Grouping) (step : RepoStep) : Grouping :=
  let dependsOnCurrent := step.dependsOn.any fun d => d ∈ g.currentIds
  if step.parallelizable && !dependsOnCurrent then
    g.push step
  else
    let g := g.close
    if step.parallelizable then
      g.push step
    else
      { g with groups := g.groups ++ [[step]] }

end Grouping

def RepoExecutionPlan.parallelGroups (plan : RepoExecutionPlan) : List (List RepoStep) :=
  (plan.steps.foldl Grouping.add ⟨[], [], ∅⟩).close.groups

/-! ## The graph -/

structure RepoDependencyGraph where
  nodes : HashMap String RepoNode
  /-- `dependency_id → {dependent_id, ...}` -/
  downstream : HashMap String (Finset String)
  /-- `dependent_id → {dependency_id, ...}` -/
  upstream : HashMap String (Finset String)

/-- The orders in which one call walks the maps and sets it reads. -/
structure HashOrder where
  nodes : Iteration String
  downstream : Iteration String
  inDegree : Iteration String
  nodeLevel : Iteration String
  visited : Iteration String
  dependents : String → Iteration String
  dependencies : String → Iteration String

/-- The order that walks everything sorted. -/
def HashOrder.sorted : HashOrder where
  nodes := Iteration.sorted String
  downstream := Iteration.sorted String
  inDegree := Iteration.sorted String
  nodeLevel := Iteration.sorted String
  visited := Iteration.sorted String
  dependents _ := Iteration.sorted String
  dependencies _ := Iteration.sorted String

namespace RepoDependencyGraph

def new : RepoDependencyGraph :=
  ⟨∅, ∅, ∅⟩

def addNode (g : RepoDependencyGraph) (node : RepoNode) : RepoDependencyGraph where
  nodes := g.nodes.insert node.repoId node
  downstream := g.downstream.orInsert node.repoId ∅
  upstream := g.upstream.orInsert node.repoId ∅

/-- The walk over `downstream.get(id)`, empty when there is no entry. -/
def dependents (g : RepoDependencyGraph) (order : HashOrder) (id : String) : List String :=
  match g.downstream.lookup id with
  | none => []
  | some ids => (order.dependents id).list ids

/-- `find_cycle_through`, whose `dfs_cycle` is the search of `Lib.Digraph`. -/
def findCycleThrough (g : RepoDependencyGraph) (order : HashOrder) (start : String) :
    Option (Option (List String)) :=
  Digraph.findCycle (g.dependents order) (g.nodes.keys.card + 1) start

/-- The two insertions that tentatively add an edge. -/
def insertEdge (g : RepoDependencyGraph) (dependency dependent : String) : RepoDependencyGraph :=
  { g with
    downstream := g.downstream.upsert dependency ∅ (insert dependent)
    upstream := g.upstream.upsert dependent ∅ (insert dependency) }

/-- The two removals that roll the edge back. -/
def removeEdge (g : RepoDependencyGraph) (dependency dependent : String) :
    Option RepoDependencyGraph :=
  match g.downstream.modify? dependency (Finset.erase · dependent) with
  | none => none
  | some downstream =>
      match g.upstream.modify? dependent (Finset.erase · dependency) with
      | none => none
      | some upstream => some { g with downstream := downstream, upstream := upstream }

def addDependency (g : RepoDependencyGraph) (order : HashOrder) (dependency dependent : String) :
    Option (Except MultiRepoError Unit × RepoDependencyGraph) :=
  if dependency ∉ g.nodes then
    some (.error (.repoNotFound dependency), g)
  else if dependent ∉ g.nodes then
    some (.error (.repoNotFound dependent), g)
  else
    let g := g.insertEdge dependency dependent
    match g.findCycleThrough order dependent with
    | none => none
    | some none => some (.ok (), g)
    | some (some cycle) =>
        match g.removeEdge dependency dependent with
        | none => none
        | some g => some (.error (.dependencyCycle cycle), g)

/-! ## Orders and plans -/

/-- A counter at zero for every node. -/
def zeroDegrees (g : RepoDependencyGraph) (order : HashOrder) : HashMap String Nat :=
  (order.nodes.list g.nodes.keys).foldl (fun m id => m.insert id 0) ∅

/-- Every dependent of every entry of `downstream`, in the order of the two nested loops. -/
def allDependents (g : RepoDependencyGraph) (order : HashOrder) : List String :=
  (order.downstream.list g.downstream.keys).flatMap (g.dependents order)

/-- The nodes whose counter is zero, sorted. -/
def roots (order : HashOrder) (inDegree : HashMap String Nat) : List String :=
  ((order.inDegree.list inDegree.keys).filter fun id => inDegree.lookup id = some 0).insertionSort
    (· ≤ ·)

/-- `DependencyCycle` with every node, for a loop that could not order them all. -/
def unordered (g : RepoDependencyGraph) (order : HashOrder) : MultiRepoError :=
  .dependencyCycle (order.nodes.list g.nodes.keys)

def topologicalOrder (g : RepoDependencyGraph) (order : HashOrder) :
    Option (Except MultiRepoError (List RepoNode)) := do
  let inDegree := (g.zeroDegrees order).tally (g.allDependents order)
  -- nodes with no outgoing edges
  let inDegree := (order.nodes.list g.nodes.keys).foldl (fun m id => m.orInsert id 0) inDegree
  let sorted ← Digraph.kahnOrder (g.dependents order) (g.nodes.keys.card + 1) inDegree
    (roots order inDegree)
  if sorted.length ≠ g.nodes.keys.card then
    return .error (g.unordered order)
  else
    let nodes ← sorted.mapM fun id => g.nodes.lookup id
    return .ok nodes

def transitiveDependentsOf (g : RepoDependencyGraph) (order : HashOrder) (repoId : String) :
    Option (Except MultiRepoError (List String)) :=
  if repoId ∉ g.nodes then
    some (.error (.repoNotFound repoId))
  else
    match Digraph.bfs (g.dependents order) (g.nodes.keys.card + 2) ∅ [repoId] with
    | none => none
    | some visited => some (.ok (order.visited.list visited))

/-- `depends_on`: the walk over `upstream.get(id)`. -/
def dependsOn (g : RepoDependencyGraph) (order : HashOrder) (id : String) : List String :=
  match g.upstream.lookup id with
  | none => []
  | some ids => (order.dependencies id).list ids

/-- The step at a position of the plan. -/
def planStep (g : RepoDependencyGraph) (order : HashOrder) (nodeLevel : HashMap String Nat)
    (levelCounts : HashMap Nat Nat) (id : String) (position : Nat) : Option RepoStep := do
  let repo ← g.nodes.lookup id
  let level ← nodeLevel.lookup id
  return {
    position := position
    repo := repo
    dependsOn := g.dependsOn order id
    parallelizable := 1 < (levelCounts.lookup level).getD 1 }

/-- The loop of `to_execution_plan`: the ids in the order they are popped, with their levels. -/
def levelOrder (g : RepoDependencyGraph) (order : HashOrder) : Option (List (String × Nat)) := do
  let inDegree ← (g.zeroDegrees order).tally? (g.allDependents order)
  Digraph.kahn (g.dependents order) (g.nodes.keys.card + 1) inDegree
    ((roots order inDegree).map fun id => (id, 0))

/-- `node_level`, with the entry each pop makes. -/
def nodeLevels (popped : List (String × Nat)) : HashMap String Nat :=
  HashMap.ofList popped

/-- `level_counts`: how many repos are at each level. -/
def levelCounts (order : HashOrder) (nodeLevel : HashMap String Nat) : HashMap Nat Nat :=
  HashMap.tally ∅ ((order.nodeLevel.list nodeLevel.keys).filterMap fun id => nodeLevel.lookup id)

def toExecutionPlan (g : RepoDependencyGraph) (order : HashOrder) (title : String) :
    Option (Except MultiRepoError RepoExecutionPlan) := do
  if g.nodes.keys = ∅ then
    return .ok ⟨title, []⟩
  else
    let popped ← g.levelOrder order
    let nodeLevel := nodeLevels popped
    let sortedIds := popped.map Prod.fst
    if sortedIds.length ≠ g.nodes.keys.card then
      return .error (g.unordered order)
    else
      let counts := levelCounts order nodeLevel
      let steps ← sortedIds.zipIdx.mapM fun x => g.planStep order nodeLevel counts x.1 x.2
      return .ok ⟨title, steps⟩

/-! ## Reachable graphs -/

/-- The graphs a program can build: only the three public constructors and mutators change one. -/
inductive Reachable : RepoDependencyGraph → Prop
  | new : Reachable new
  | addNode {g : RepoDependencyGraph} (node : RepoNode) (h : Reachable g) :
      Reachable (g.addNode node)
  | addDependency {g g' : RepoDependencyGraph} {order : HashOrder} {dependency dependent : String}
      {res : Except MultiRepoError Unit} (h : Reachable g)
      (hcall : g.addDependency order dependency dependent = some (res, g')) : Reachable g'

end RepoDependencyGraph

end MultiRepo
end Aivcs
