import Seepage.Graph.FileGraph
import Seepage.Program.Node

set_option autoImplicit false

namespace Seepage

def registrationCalls : List String := ["Page", "App", "Component", "Behavior"]

namespace FileGraph

def isHostCall (graph : FileGraph) (id : Nat) : Bool :=
  graph.arena.kind id = .call && (graph.heap.callTargets id).isEmpty

def registrations (graph : FileGraph) : List Nat :=
  graph.arena.ids.filter fun id =>
    graph.isHostCall id && (graph.arena.calleeName? id).any registrationCalls.contains

def namedValues (graph : FileGraph) (object : Nat) : List (String × Nat) :=
  (graph.arena.children object).filterMap fun property =>
    match graph.arena.propertyKey? property, graph.arena.propertyValue? property with
    | some key, some value => some (key.name?.getD Alias.anyKey, value)
    | _, _ => none

def handlersOf (graph : FileGraph) (name : String) (value : Nat) : List (String × Nat) :=
  (graph.heap.functionsOf value).map fun function => (name, function)

def registeredHandlers (graph : FileGraph) (call : Nat) : List (String × Nat) :=
  match graph.arena.callArgs call with
  | [] => []
  | config :: _ =>
    if graph.arena.kind config = .object then
      (graph.namedValues config).flatMap fun (name, value) =>
        if Alias.handlerGroups.contains name && graph.arena.kind value = .object then
          (graph.namedValues value).flatMap fun (name, value) => graph.handlersOf name value
        else graph.handlersOf name value
    else []

def handlerLinks (graph : FileGraph) (file handler : Nat) : List LinkEdge :=
  match graph.arena.functionParts? handler with
  | none => []
  | some parts =>
    let exit := graph.arena.exitOf Arena.root
    let returned := graph.heap.problem.returns.getD handler []
    parts.params.map (fun param => ⟨⟨file, parts.entry⟩, ⟨file, param⟩, .callArg, none⟩) ++
      (parts.exit :: returned).map fun result =>
        ⟨⟨file, result⟩, ⟨file, exit⟩, .callReturn, none⟩

def registrationLinks (graph : FileGraph) (file : Nat) : List LinkEdge :=
  (graph.registrations.flatMap graph.registeredHandlers).flatMap fun (_, handler) =>
    graph.handlerLinks file handler

end FileGraph

end Seepage
