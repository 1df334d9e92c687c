import Seepage.Alias.Step
import Seepage.Budget

set_option autoImplicit false

namespace Seepage.Alias

def pass (problem : Problem) (state : State) : State :=
  problem.rules.foldr (Rule.apply problem) state

def iterate (problem : Problem) : Nat → Nat → State → State × Nat
  | 0, passes, state => (state, passes)
  | fuel + 1, passes, state =>
    let next := pass problem state
    if next.facts = state.facts then (next, passes + 1) else iterate problem fuel (passes + 1) next

-- A bound on the number of facts. Every node has at most one location, and keys are those of the
-- rules, `data` and the key of all properties.
def Problem.factBound (problem : Problem) : Nat :=
  let nodes := problem.arena.size
  let rules := problem.rules.length
  let locations := nodes + 1
  locations * (2 * nodes + rules + locations * (rules + 2) + locations) + nodes * nodes

def iterateWithin (budget : Budget) (problem : Problem) :
    Nat → Nat → State → Except Overrun (State × Nat)
  | 0, passes, state => .ok (state, passes)
  | fuel + 1, passes, state => do
    budget.check
    let next := pass problem state
    if next.facts = state.facts then return (next, passes + 1)
    else iterateWithin budget problem fuel (passes + 1) next

structure Solution where
  problem : Problem
  state : State
  passes : Nat

namespace Solution

def solve (problem : Problem) : Solution :=
  let (state, passes) := iterate problem (problem.factBound + 1) 0 (.initial problem.arena)
  ⟨problem, state, passes⟩

def ofArena (arena : Arena) (resolution : Resolution) (copies : List (Nat × Nat))
    (options : Options) : Solution :=
  solve (.ofArena arena resolution copies options)

def build (arena : Arena) (resolution : Resolution) (copies : List (Nat × Nat))
    (options : Options) (budget : Budget) : Except Overrun Solution := do
  let problem := Problem.ofArena arena resolution copies options
  let (state, passes) ←
    iterateWithin budget problem (problem.factBound + 1) 0 (.initial problem.arena)
  return ⟨problem, state, passes⟩

def locationCount (solution : Solution) : Nat :=
  solution.state.locations.size

def pointsTo (solution : Solution) (node : Nat) : NatSet :=
  solution.state.pointsTo node

def callTargets (solution : Solution) (call : Nat) : NatSet :=
  solution.state.targets.image call

def functionsOf (solution : Solution) (node : Nat) : List Nat :=
  ((solution.pointsTo node).map solution.state.location).filterMap fun location =>
    if location.kind = .function then some location.node else none

def readOwners (solution : Solution) (object : Nat) (key : Option String) : ReadOwners :=
  solution.state.readOwners solution.problem.options object key

def opaqueReads (solution : Solution) : NatSet :=
  NatSet.ofList (solution.problem.rules.filterMap fun rule =>
    match rule with
    | .read object key target =>
      if solution.readOwners object key = .givenUp then some target else none
    | _ => none)

def writeEdges (solution : Solution) : List Edge :=
  solution.state.writes.toList.flatMap fun (owner, keys) =>
    let location := solution.state.location owner
    if location.kind.isAllocation then
      keys.toList.flatMap fun (_, writers) =>
        (writers.filter fun writer =>
          (solution.problem.arena.propertyKey? writer).isNone && writer != location.node).map
            fun writer => .data writer location.node .propertyWrite
    else []

def readEdges (solution : Solution) : Rule → List Edge
  | .read object key target =>
    (solution.readOwners object key).resolved.flatMap fun owner =>
      ((solution.state.writers owner key).filter (· != target)).map fun writer =>
        .data writer target .propertyRead
  | _ => []

def propertyEdges (solution : Solution) : List Edge :=
  sortEdges (solution.writeEdges ++ solution.problem.rules.flatMap solution.readEdges)

def diagnostics (solution : Solution) : List Diagnostic :=
  solution.opaqueReads.map fun node =>
    .atNode solution.problem.arena node .opaqueRead .hint
      "property read has too many candidate owners and is not resolved"

end Solution

end Seepage.Alias
