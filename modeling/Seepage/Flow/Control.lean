import Seepage.Diagnostic
import Seepage.Flow.Statement
import Seepage.Tree.Name
import Std.Data.TreeMap

set_option autoImplicit false

namespace Seepage

structure ControlGraph where
  owner : Nat
  entry : Nat
  exit : Nat
  vertices : List Nat
  edges : List ControlEdge
deriving Repr, Inhabited

namespace ControlGraph

def successors (graph : ControlGraph) (vertex : Nat) : List ControlEdge :=
  graph.edges.filter (·.source == vertex)

def predecessors (graph : ControlGraph) (vertex : Nat) : List ControlEdge :=
  graph.edges.filter (·.target == vertex)

def bySource (graph : ControlGraph) : List ControlEdge :=
  graph.vertices.flatMap graph.successors

def body (exit : Nat) (tree : Syntree) (start : Exits) : Piece :=
  match tree.label.kind with
  | .function _ _ paramCount _ =>
    match tree.children[2 + paramCount]? with
    | none => ⟨{}, start⟩
    | some body =>
      if body.label.kind = .block then flowAll exit [] body.children start
      else .simple body.label.id start
  | _ => flowAll exit [] (tree.children.drop 2) start

def ofTree (tree : Syntree) : ControlGraph :=
  let node := tree.label
  let entry := node.children[0]?.getD 0
  let exit := node.children[1]?.getD 0
  let piece := body exit tree [(entry, .fallthrough)]
  { owner := node.id
    entry
    exit
    vertices := (entry :: exit :: piece.emitted.vertices).eraseDups
    edges := (piece.emitted.edges ++ connect piece.exits exit).eraseDups }

-- Vertices that no edge leads to. Function declarations and empty statements do nothing, so they do
-- not count.
def unreachable (arena : Arena) (graph : ControlGraph) : List Nat :=
  graph.vertices.filter fun vertex =>
    vertex != graph.entry && vertex != graph.exit && (graph.predecessors vertex).isEmpty &&
      !(arena.kind vertex).isFunction && arena.kind vertex != .empty

end ControlGraph

structure ControlFlow where
  graphs : List ControlGraph
  branches : List ControlEdge
  unreachable : List Nat
  statements : Array (Option Nat)
deriving Inhabited

namespace ControlFlow

def branchesOf (node : Node) : List ControlEdge :=
  match node.kind, node.children with
  | .conditional, [_, consequent, alternate] =>
    [⟨node.id, consequent, .whenTrue⟩, ⟨node.id, alternate, .whenFalse⟩]
  | _, _ => []

def statementAlong (arena : Arena) (isVertex : Nat → Bool) : List Nat → Option Nat
  | [] => none
  | id :: above =>
    if isVertex id then some id
    else
      match above with
      | [] => none
      | parent :: _ =>
        if (arena.kind parent).isOwner then some (arena.entryOf parent)
        else statementAlong arena isVertex above

def ofArena (arena : Arena) : ControlFlow :=
  let owners := arena.ids.filter fun id => (arena.kind id).isOwner
  let graphs := owners.map fun owner => ControlGraph.ofTree (arena.subtree owner)
  let vertexLists : Std.TreeMap Nat (List Nat) :=
    graphs.foldl (fun map graph => map.insert graph.owner graph.vertices) ∅
  let isVertex (id : Nat) : Bool := (vertexLists.getD (arena.owner id) []).contains id
  { graphs
    branches := arena.nodes.flatMap branchesOf
    unreachable := graphs.flatMap (·.unreachable arena)
    statements := (arena.nodes.map fun node =>
      statementAlong arena isVertex (node.id :: node.ancestors)).toArray }

def statementOf (control : ControlFlow) (id : Nat) : Option Nat :=
  control.statements.getD id none

def edgeCount (control : ControlFlow) : Nat :=
  (control.graphs.flatMap (·.edges)).length + control.branches.length

def diagnostics (control : ControlFlow) (arena : Arena) : List Diagnostic :=
  control.unreachable.map fun id =>
    .atNode arena id .unreachable .warning ("unreachable " ++ (arena.kind id).label)

end ControlFlow

end Seepage
