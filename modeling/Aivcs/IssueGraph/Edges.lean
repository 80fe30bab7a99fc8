import Aivcs.Lib.StackSearch
import Aivcs.State.Types

/-!
# IssueGraph.Edges — typed edges between issues and between nodes of the mesh

`graph.rs` links issues and `mesh.rs` links nodes of any kind; both store an edge in its canonical
direction and search for the cycle a new edge would close.  What they share is written once, over the
references `ρ` and the kinds `κ`: the two vocabularies keep their own tables.

A reference is printed where it is an identity: the mesh names an issue by its text.  Reading references
back and the assembled views are left out.
-/

namespace Aivcs
namespace IssueGraph

open Aivcs.Lib Aivcs.State

/-! ## Edges -/

/-- A typed, directed relationship, read as `fromRef <kind> toRef`. -/
structure Edge (ρ κ : Type) where
  id : String
  fromRef : ρ
  kind : κ
  toRef : ρ
  createdBy : String
  createdAt : Timestamp
  deriving DecidableEq

/-- What a caller declares, with the identifier and the time the edge is given. -/
structure Declaration (ρ κ : Type) where
  fromRef : ρ
  kind : κ
  toRef : ρ
  createdBy : String
  id : String
  now : Timestamp
  deriving DecidableEq

namespace Edge

variable {ρ κ : Type} [DecidableEq ρ] [DecidableEq κ]

/-- Build the edge in its canonical direction; `noun` and `name` are for the message. -/
def canonicalWith (isCanonical : κ → Bool) (inverse : κ → κ) (noun : String) (name : ρ → String)
    (d : Declaration ρ κ) : Except String (Edge ρ κ) :=
  if d.fromRef = d.toRef then
    .error (noun ++ " " ++ name d.fromRef ++ " cannot link to itself")
  else if isCanonical d.kind then
    .ok ⟨d.id, d.fromRef, d.kind, d.toRef, d.createdBy, d.now⟩
  else
    -- The derived direction is stored turned round, under the inverse kind.
    .ok ⟨d.id, d.toRef, inverse d.kind, d.fromRef, d.createdBy, d.now⟩

/-- The ends of the edges of one kind that start at `node`, in the order of the list. -/
def targets (edges : List (Edge ρ κ)) (kind : κ) (node : ρ) : List ρ :=
  ((edges.filter fun e => e.kind = kind).filter fun e => e.fromRef = node).map Edge.toRef

/-- Does the search along edges of one kind find the source of the candidate from its target? -/
def closesCycle (edges : List (Edge ρ κ)) (kind : κ) (candidate : Edge ρ κ) : Option Bool :=
  Digraph.search (targets edges kind) candidate.fromRef (edges.length + 2) [candidate.toRef] ∅

end Edge

/-! ## The issue graph -/

/-- A reference to an issue: `owner/repo#number`. -/
structure IssueRef where
  repo : String
  number : UInt64
  deriving DecidableEq

def IssueRef.toString (r : IssueRef) : String :=
  r.repo ++ "#" ++ r.number.toNat.repr

inductive EdgeKind where
  | blocks
  | blockedBy
  | relates
  | parent
  | child
  deriving DecidableEq

namespace EdgeKind

def inverse : EdgeKind → EdgeKind
  | .blocks => .blockedBy
  | .blockedBy => .blocks
  | .relates => .relates
  | .parent => .child
  | .child => .parent

def isCanonical : EdgeKind → Bool
  | .blockedBy | .child => false
  | .blocks | .relates | .parent => true

end EdgeKind

abbrev IssueEdge : Type := Edge IssueRef EdgeKind

def IssueEdge.canonical : Declaration IssueRef EdgeKind → Except String IssueEdge :=
  Edge.canonicalWith EdgeKind.isCanonical EdgeKind.inverse "issue" IssueRef.toString

def wouldCreateBlocksCycle (edges : List IssueEdge) (candidate : IssueEdge) : Option Bool :=
  if candidate.kind ≠ .blocks then some false
  else Edge.closesCycle edges .blocks candidate

/-! ## The mesh graph -/

inductive NodeKind where
  | issue
  | pr
  | ciRun
  | check
  | artifact
  | agent
  | commit
  | service
  | finding
  | metric
  deriving DecidableEq

def NodeKind.asStr : NodeKind → String
  | .issue => "issue"
  | .pr => "pr"
  | .ciRun => "ci-run"
  | .check => "check"
  | .artifact => "artifact"
  | .agent => "agent"
  | .commit => "commit"
  | .service => "service"
  | .finding => "finding"
  | .metric => "metric"

/-- A reference to any node of the mesh. -/
structure MeshRef where
  kind : NodeKind
  id : String
  deriving DecidableEq

namespace MeshRef

def issue (r : IssueRef) : MeshRef :=
  ⟨.issue, r.toString⟩

def toString (r : MeshRef) : String :=
  r.kind.asStr ++ ":" ++ r.id

end MeshRef

inductive MeshEdgeKind where
  | blocks
  | blockedBy
  | relates
  | parent
  | child
  | implements
  | implementedBy
  | verifies
  | verifiedBy
  | produces
  | producedBy
  | triggers
  | triggeredBy
  | authored
  | authoredBy
  | gates
  | gatedBy
  | probes
  | probedBy
  | found
  | foundBy
  | measured
  | measuredBy
  deriving DecidableEq

namespace MeshEdgeKind

def inverse : MeshEdgeKind → MeshEdgeKind
  | .blocks => .blockedBy
  | .blockedBy => .blocks
  | .relates => .relates
  | .parent => .child
  | .child => .parent
  | .implements => .implementedBy
  | .implementedBy => .implements
  | .verifies => .verifiedBy
  | .verifiedBy => .verifies
  | .produces => .producedBy
  | .producedBy => .produces
  | .triggers => .triggeredBy
  | .triggeredBy => .triggers
  | .authored => .authoredBy
  | .authoredBy => .authored
  | .gates => .gatedBy
  | .gatedBy => .gates
  | .probes => .probedBy
  | .probedBy => .probes
  | .found => .foundBy
  | .foundBy => .found
  | .measured => .measuredBy
  | .measuredBy => .measured

def isCanonical : MeshEdgeKind → Bool
  | .blockedBy | .child | .implementedBy | .verifiedBy | .producedBy | .triggeredBy | .authoredBy
  | .gatedBy | .probedBy | .foundBy | .measuredBy => false
  | _ => true

def isSymmetric (kind : MeshEdgeKind) : Bool :=
  kind = .relates

/-- `From<EdgeKind>`. -/
def ofEdgeKind : EdgeKind → MeshEdgeKind
  | .blocks => .blocks
  | .blockedBy => .blockedBy
  | .relates => .relates
  | .parent => .parent
  | .child => .child

end MeshEdgeKind

abbrev MeshEdge : Type := Edge MeshRef MeshEdgeKind

def MeshEdge.canonical : Declaration MeshRef MeshEdgeKind → Except String MeshEdge :=
  Edge.canonicalWith MeshEdgeKind.isCanonical MeshEdgeKind.inverse "node" MeshRef.toString

def wouldCreateCycle (edges : List MeshEdge) (candidate : MeshEdge) : Option Bool :=
  if candidate.kind.isSymmetric then some false
  else Edge.closesCycle edges candidate.kind candidate

/-- An issue edge as an edge of the mesh. -/
def IssueEdge.toMesh (e : IssueEdge) : MeshEdge :=
  ⟨e.id, .issue e.fromRef, .ofEdgeKind e.kind, .issue e.toRef, e.createdBy, e.createdAt⟩

/-! ## The caller -/

/-- Add what is declared when it is a canonical edge and the check answers that it closes no cycle. -/
def addEdge {ρ κ : Type} (canonical : Declaration ρ κ → Except String (Edge ρ κ))
    (check : List (Edge ρ κ) → Edge ρ κ → Option Bool) (edges : List (Edge ρ κ))
    (d : Declaration ρ κ) : List (Edge ρ κ) :=
  match canonical d with
  | .error _ => edges
  | .ok candidate => if check edges candidate = some false then edges ++ [candidate] else edges

def addIssueEdge : List IssueEdge → Declaration IssueRef EdgeKind → List IssueEdge :=
  addEdge IssueEdge.canonical wouldCreateBlocksCycle

def addMeshEdge : List MeshEdge → Declaration MeshRef MeshEdgeKind → List MeshEdge :=
  addEdge MeshEdge.canonical wouldCreateCycle

end IssueGraph
end Aivcs
