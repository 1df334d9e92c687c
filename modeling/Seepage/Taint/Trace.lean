import Seepage.Taint.Label

set_option autoImplicit false

namespace Seepage.Taint

structure Trace where
  queue : List GlobalNode
  visited : List GlobalNode := []
  ways : Std.TreeMap GlobalNode (List GlobalNode)

namespace Trace

def start (seeds : List GlobalNode) : Trace where
  queue := seeds
  ways := seeds.foldl (fun ways seed => ways.insert seed [seed]) ∅

def reach (way : List GlobalNode) (trace : Trace) (next : GlobalNode) : Trace :=
  if trace.ways.contains next then trace
  else { trace with queue := trace.queue ++ [next], ways := trace.ways.insert next (next :: way) }

def visit (program : Program) (trace : Trace) (node : GlobalNode) (rest : List GlobalNode) :
    Trace :=
  let taken := { trace with queue := rest, visited := node :: trace.visited }
  ((program.successors node).map (·.1)).foldl (reach (trace.ways.getD node [])) taken

def run (program : Program) : Nat → Trace → Trace
  | 0, trace => trace
  | fuel + 1, trace =>
    match trace.queue with
    | [] => trace
    | node :: rest => run program fuel (trace.visit program node rest)

def checkInterval : Nat := 1024

def runWithin (budget : Budget) (program : Program) (earlier : Nat) :
    Nat → Trace → Except Overrun Trace
  | 0, trace => .ok trace
  | fuel + 1, trace =>
    match trace.queue with
    | [] => .ok trace
    | node :: rest => do
      budget.checkEvery checkInterval (earlier + trace.visited.length + 1)
      runWithin budget program earlier fuel (trace.visit program node rest)

def order (trace : Trace) : List GlobalNode :=
  trace.visited.reverse

def wayTo (trace : Trace) (node : GlobalNode) : List GlobalNode :=
  (trace.ways.getD node []).reverse

end Trace

-- No node is visited twice, and every one is a start or the target of an edge.
def visitBound (program : Program) (seeds : List GlobalNode) : Nat :=
  (program.files.toList.flatMap (·.edges)).length + program.links.length + seeds.length

def trace (program : Program) (seeds : List GlobalNode) : Trace :=
  (Trace.start seeds).run program (visitBound program seeds)

def traceAll (budget : Budget) (program : Program) :
    Nat → List (Label × List GlobalNode) → Except Overrun (List (Label × Trace))
  | _, [] => .ok []
  | earlier, (label, nodes) :: rest => do
    let found ← (Trace.start nodes).runWithin budget program earlier (visitBound program nodes)
    let traced ← traceAll budget program (earlier + found.visited.length) rest
    return (label, found) :: traced

end Seepage.Taint
