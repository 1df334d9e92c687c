import Seepage.Alias.Call
import Seepage.Budget
import Seepage.Flow.Data
import Seepage.Graph.Adjacency
import Seepage.Metrics

set_option autoImplicit false

namespace Seepage

structure FileGraph where
  arena : Arena
  resolution : Resolution
  control : ControlFlow
  heap : Alias.Solution
  edges : List Edge
  outgoing : Adjacency Nat (Nat × DataKind)
  incoming : Adjacency Nat (Nat × DataKind)

namespace FileGraph

def nodeCost : Nat := 120

def edgeCost : Nat := 36

def locationCost : Nat := 64

def controlEdges (control : ControlFlow) : List Edge :=
  (control.graphs.flatMap (·.edges) ++ control.branches).map .control

def forward (edges : List Edge) : List (Nat × Nat × DataKind) :=
  edges.filterMap fun edge => edge.dataKind?.map fun kind => (edge.source, edge.target, kind)

def backward (edges : List Edge) : List (Nat × Nat × DataKind) :=
  edges.filterMap fun edge => edge.dataKind?.map fun kind => (edge.target, edge.source, kind)

def ofEdges (arena : Arena) (resolution : Resolution) (control : ControlFlow)
    (heap : Alias.Solution) (edges : List Edge) : FileGraph :=
  { arena, resolution, control, heap, edges
    outgoing := .ofList (forward edges)
    incoming := .ofList (backward edges) }

def build (arena : Arena) (options : Alias.Options) (budget : Budget) :
    Except Overrun (FileGraph × Budget) := do
  let budget ← budget.charge (arena.size * nodeCost)
  let resolution := Resolution.ofArena arena
  let control := ControlFlow.ofArena arena
  let budget ← budget.charge (control.edgeCount * edgeCost)
  let flow ← DataFlow.build arena resolution control budget
  let budget ← budget.charge ((flow.edges.length + flow.copies.length) * edgeCost)
  let heap ← Alias.Solution.build arena resolution flow.copies options budget
  let resolved := heap.propertyEdges ++ heap.callEdges
  let budget ← budget.charge (heap.locationCount * locationCost + resolved.length * edgeCost)
  let edges := sortEdges (flow.edges ++ resolved ++ controlEdges control)
  return (ofEdges arena resolution control heap edges, budget)

def file (graph : FileGraph) : String :=
  graph.arena.file

def sizes (graph : FileGraph) : Sizes where
  nodes := graph.arena.size
  edges := graph.edges.length
  locations := graph.heap.locationCount

def dataEdges (graph : FileGraph) : List Edge :=
  graph.edges.filter (·.dataKind?.isSome)

def controlPart (graph : FileGraph) : List Edge :=
  graph.edges.filter (·.dataKind?.isNone)

def successors (graph : FileGraph) (node : Nat) : List (Nat × DataKind) :=
  graph.outgoing.values node

def predecessors (graph : FileGraph) (node : Nat) : List (Nat × DataKind) :=
  graph.incoming.values node

def diagnostics (graph : FileGraph) : List Diagnostic :=
  graph.resolution.diagnostics graph.arena ++ graph.control.diagnostics graph.arena ++
    graph.heap.diagnostics

end FileGraph

end Seepage
