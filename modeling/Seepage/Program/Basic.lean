import Seepage.Markup.Binding
import Seepage.Program.Channel
import Seepage.Program.Handler

set_option autoImplicit false

namespace Seepage

structure MarkupEdge where
  binding : Markup.Binding
  target : GlobalNode
deriving DecidableEq, Repr, Inhabited

def MarkupEdge.le (a b : MarkupEdge) : Bool :=
  ((a.binding.cmp b.binding).then (compare a.target b.target)).isLE

structure Program where
  files : Array FileGraph := #[]
  markup : Std.TreeMap Nat (List Markup.Binding) := ∅
  links : List LinkEdge := []
  markupEdges : List MarkupEdge := []
  outgoing : Adjacency GlobalNode (GlobalNode × DataKind) := ∅
  incoming : Adjacency GlobalNode (GlobalNode × DataKind) := ∅

namespace Program

def fileId? (program : Program) (name : String) : Option Nat :=
  program.files.findIdx? (·.file == name)

def merge (program : Program) (graph : FileGraph) : Program × Nat :=
  match program.fileId? graph.file with
  | some id => ({ program with files := program.files.setIfInBounds id graph }, id)
  | none => ({ program with files := program.files.push graph }, program.files.size)

def attach (program : Program) (file : Nat) (bindings : List Markup.Binding) : Program :=
  { program with markup := program.markup.insert file bindings }

def numbered (program : Program) : List (Nat × FileGraph) :=
  program.files.toList.zipIdx.map fun (graph, id) => (id, graph)

def channelEnds (program : Program) (ends : FileGraph → List ChannelEnd) :
    List (String × GlobalNode) :=
  program.numbered.flatMap fun (file, graph) =>
    (ends graph).map fun found => (found.event, ⟨file, found.node⟩)

def channelLinks (program : Program) : List LinkEdge :=
  let listeners := program.channelEnds FileGraph.listeners
  (program.channelEnds FileGraph.emits).flatMap fun (event, value) =>
    (listeners.filter (·.1 == event)).map fun (_, param) => ⟨value, param, .callArg, some event⟩

def allLinks (program : Program) : List LinkEdge :=
  sortDistinct LinkEdge.le
    ((program.numbered.flatMap fun (file, graph) => graph.registrationLinks file) ++
      program.channelLinks)

def allMarkupEdges (program : Program) : List MarkupEdge :=
  sortDistinct MarkupEdge.le (program.markup.toList.flatMap fun (file, bindings) =>
    match program.files[file]? with
    | none => []
    | some graph => bindings.flatMap fun binding =>
        (graph.arena.bindingTargets binding.name).map fun node => ⟨binding, ⟨file, node⟩⟩)

def link (program : Program) : Program :=
  let links := program.allLinks
  { program with
    links
    markupEdges := program.allMarkupEdges
    outgoing := .ofList (links.map fun edge => (edge.source, edge.target, edge.kind))
    incoming := .ofList (links.map fun edge => (edge.target, edge.source, edge.kind)) }

def contains (program : Program) (id : GlobalNode) : Bool :=
  program.files[id.file]?.any fun graph => id.node < graph.arena.size

def graph? (program : Program) (id : GlobalNode) : Option FileGraph :=
  program.files[id.file]?

def arena (program : Program) (id : GlobalNode) : Arena :=
  ((program.graph? id).map (·.arena)).getD default

def kind (program : Program) (id : GlobalNode) : Kind :=
  (program.arena id).kind id.node

def successors (program : Program) (id : GlobalNode) : List (GlobalNode × DataKind) :=
  (((program.graph? id).map (·.successors id.node)).getD []).map
    (fun (node, kind) => (⟨id.file, node⟩, kind)) ++ program.outgoing.values id

def predecessors (program : Program) (id : GlobalNode) : List (GlobalNode × DataKind) :=
  (((program.graph? id).map (·.predecessors id.node)).getD []).map
    (fun (node, kind) => (⟨id.file, node⟩, kind)) ++ program.incoming.values id

def linkBetween? (program : Program) (source target : GlobalNode) : Option LinkEdge :=
  program.links.find? fun edge => edge.source == source && edge.target == target

end Program

end Seepage
