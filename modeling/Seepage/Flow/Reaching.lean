import Seepage.Budget
import Seepage.Flow.Event
import Seepage.Graph.Edge
import Seepage.NatSet

set_option autoImplicit false

namespace Seepage

structure VariableUse where
  events : Std.TreeMap Nat (List Event)
  symbolOf : Nat → Option Nat

namespace VariableUse

def eventsAt (use : VariableUse) (vertex : Nat) : List Event :=
  use.events.getD vertex []

def ofArena (arena : Arena) (resolution : Resolution) (control : ControlFlow) : VariableUse where
  events := control.graphs.foldl (fun events graph =>
    graph.vertices.foldl (fun events vertex =>
      events.insert vertex (Event.ofVertex arena resolution control graph.owner vertex)) events) ∅
  symbolOf id := resolution.symbolOf[id]?

def definitions (use : VariableUse) : Std.TreeMap Nat NatSet :=
  use.events.foldl (fun found _ events =>
    events.foldl (fun found event =>
      match event with
      | .use .. => found
      | .define node symbol => found.insert symbol (NatSet.insert node (found.getD symbol [])))
      found) ∅

end VariableUse

namespace Reaching

def after (use : VariableUse) (state : NatSet) : Event → NatSet
  | .use .. => state
  | .define node symbol =>
    NatSet.insert node (state.filter fun definition => use.symbolOf definition != some symbol)

def transfer (use : VariableUse) (vertex : Nat) (state : NatSet) : NatSet :=
  (use.eventsAt vertex).foldl (after use) state

def before (graph : ControlGraph) (outs : Std.TreeMap Nat NatSet) (vertex : Nat) : NatSet :=
  (graph.predecessors vertex).foldl
    (fun state edge => NatSet.union state (outs.getD edge.source [])) []

structure Progress where
  outs : Std.TreeMap Nat NatSet := ∅
  queue : List Nat
  taken : Nat := 0

def enqueue (queue : List Nat) (vertices : List Nat) : List Nat :=
  vertices.foldl (fun queue vertex => if queue.contains vertex then queue else queue ++ [vertex])
    queue

def visit (use : VariableUse) (graph : ControlGraph) (outs : Std.TreeMap Nat NatSet)
    (taken vertex : Nat) (rest : List Nat) : Progress :=
  let out := transfer use vertex (before graph outs vertex)
  if outs[vertex]? = some out then ⟨outs, rest, taken + 1⟩
  else
    ⟨outs.insert vertex out, enqueue rest ((graph.successors vertex).map (·.target)), taken + 1⟩

def run (use : VariableUse) (graph : ControlGraph) : Nat → Progress → Progress
  | 0, progress => progress
  | fuel + 1, progress =>
    match progress.queue with
    | [] => progress
    | vertex :: rest =>
      run use graph fuel (visit use graph progress.outs progress.taken vertex rest)

def checkInterval : Nat := 256

def runWithin (budget : Budget) (use : VariableUse) (graph : ControlGraph) (earlier : Nat) :
    Nat → Progress → Except Overrun Progress
  | 0, progress => .ok progress
  | fuel + 1, progress =>
    match progress.queue with
    | [] => .ok progress
    | vertex :: rest => do
      budget.checkEvery checkInterval (earlier + progress.taken + 1)
      runWithin budget use graph earlier fuel
        (visit use graph progress.outs progress.taken vertex rest)

def eventCount (use : VariableUse) (graph : ControlGraph) : Nat :=
  (graph.vertices.flatMap use.eventsAt).length

-- Every state grows at most once per definition, and each time it does the vertex's successors are
-- queued.
def enough (use : VariableUse) (graph : ControlGraph) : Nat :=
  graph.vertices.length + (eventCount use graph + 2) * graph.edges.length + 1

def solve (use : VariableUse) (graph : ControlGraph) : Progress :=
  run use graph (enough use graph) { queue := graph.vertices }

def solveAll (budget : Budget) (use : VariableUse) :
    Nat → List ControlGraph → Except Overrun (List (ControlGraph × Progress))
  | _, [] => .ok []
  | earlier, graph :: rest => do
    let progress ← runWithin budget use graph earlier (enough use graph) { queue := graph.vertices }
    let solved ← solveAll budget use (earlier + progress.taken) rest
    return (graph, progress) :: solved

def sources (arena : Arena) (definitions : Std.TreeMap Nat NatSet) (owner symbol : Nat)
    (reaching : NatSet) : NatSet :=
  let all := definitions.getD symbol []
  if reaching.isEmpty then all
  else NatSet.union reaching (all.filter fun definition => arena.owner definition != owner)

def links (arena : Arena) (use : VariableUse) (definitions : Std.TreeMap Nat NatSet)
    (owner : Nat) : NatSet → List Event → List Edge
  | _, [] => []
  | state, event :: rest =>
    let found := match event with
      | .use node symbol =>
        let reaching := state.filter fun definition => use.symbolOf definition == some symbol
        ((sources arena definitions owner symbol reaching).filter (· != node)).map fun definition =>
          .data definition node .defUse
      | .define .. => []
    found ++ links arena use definitions owner (after use state event) rest

def graphLinks (arena : Arena) (use : VariableUse) (definitions : Std.TreeMap Nat NatSet)
    (graph : ControlGraph) (outs : Std.TreeMap Nat NatSet) : List Edge :=
  graph.vertices.flatMap fun vertex =>
    links arena use definitions graph.owner (before graph outs vertex) (use.eventsAt vertex)

end Reaching

end Seepage
