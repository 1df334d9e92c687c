import Seepage.Program.Basic
import Seepage.Taint.Filter

set_option autoImplicit false

namespace Seepage.Taint

inductive Label where
  | api (name : String) (site : GlobalNode)
  | markup (binding : Markup.Binding)
deriving DecidableEq, Repr, Inhabited

namespace Label

def apiName? : Label → Option String
  | .api name _ => some name
  | .markup _ => none

def text : Label → String
  | .api name _ => name
  | .markup binding =>
    "[data from double binding: " ++ binding.name ++ ", type: " ++ binding.inputType ++ "]"

def cmp : Label → Label → Ordering
  | .api name site, .api name' site' => (compare name name').then (compare site site')
  | .api .., .markup _ => .lt
  | .markup _, .api .. => .gt
  | .markup binding, .markup binding' => binding.cmp binding'

end Label

structure Seed where
  label : Label
  node : GlobalNode
deriving DecidableEq, Repr, Inhabited

def Seed.le (a b : Seed) : Bool :=
  ((a.label.cmp b.label).then (compare a.node b.node)).isLE

def hostCallName? (graph : FileGraph) (id : Nat) : Option String :=
  if graph.isHostCall id then
    (graph.arena.calleeName? id).filter fun name => !registrationCalls.contains name
  else none

def isCallee (arena : Arena) (id : Nat) : Bool :=
  (arena.parent? id).any fun parent =>
    (arena.kind parent).isCallLike && arena.child? parent 0 == some id

def sourceName? (graph : FileGraph) (apis : ApiFilter) (id : Nat) : Option String :=
  match graph.arena.kind id with
  | .call => (hostCallName? graph id).filter apis.admits
  | .member _ =>
    if apis.isAll || isCallee graph.arena id then none
    else (graph.arena.dottedName? id).filter apis.admits
  | _ => none

def apiSeeds (program : Program) (sources : SourceFilter) : List Seed :=
  program.numbered.flatMap fun (file, graph) =>
    graph.arena.ids.filterMap fun id =>
      (sourceName? graph sources.apis id).map fun name => ⟨.api name ⟨file, id⟩, ⟨file, id⟩⟩

def markupSeeds (program : Program) (sources : SourceFilter) : List Seed :=
  if sources.doubleBinding then
    program.markupEdges.map fun edge => ⟨.markup edge.binding, edge.target⟩
  else []

def groupSeeds : List Seed → List (Label × List GlobalNode)
  | [] => []
  | seed :: rest =>
    match groupSeeds rest with
    | (label, nodes) :: groups =>
      if seed.label = label then (label, seed.node :: nodes) :: groups
      else (seed.label, [seed.node]) :: (label, nodes) :: groups
    | [] => [(seed.label, [seed.node])]

def seeds (program : Program) (sources : SourceFilter) : List (Label × List GlobalNode) :=
  groupSeeds (sortDistinct Seed.le (apiSeeds program sources ++ markupSeeds program sources))

end Seepage.Taint
