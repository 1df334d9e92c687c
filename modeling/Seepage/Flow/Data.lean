import Seepage.Flow.Reaching
import Seepage.Flow.Value

set_option autoImplicit false

namespace Seepage

structure DataFlow where
  edges : List Edge
  copies : List (Nat × Nat)
  definitions : Std.TreeMap Nat NatSet
  iterations : Nat

namespace DataFlow

def ofSolved (arena : Arena) (use : VariableUse)
    (solved : List (ControlGraph × Reaching.Progress)) : DataFlow :=
  let flows := valueFlows arena
  let definitions := use.definitions
  { edges := sortEdges (flows.map (fun flow => .data flow.source flow.target flow.kind) ++
      solved.flatMap fun (graph, progress) =>
        Reaching.graphLinks arena use definitions graph progress.outs)
    copies := (flows.filter (·.isCopy)).map fun flow => (flow.source, flow.target)
    definitions
    iterations := solved.foldl (fun taken found => taken + found.2.taken) 0 }

def ofArena (arena : Arena) (resolution : Resolution) (control : ControlFlow) : DataFlow :=
  let use := VariableUse.ofArena arena resolution control
  ofSolved arena use (control.graphs.map fun graph => (graph, Reaching.solve use graph))

def build (arena : Arena) (resolution : Resolution) (control : ControlFlow) (budget : Budget) :
    Except Overrun DataFlow := do
  let use := VariableUse.ofArena arena resolution control
  let solved ← Reaching.solveAll budget use 0 control.graphs
  return ofSolved arena use solved

end DataFlow

end Seepage
