import Seepage.Graph.FileGraph
import Seepage.Program.Node

set_option autoImplicit false

namespace Seepage

structure ChannelEnd where
  event : String
  node : Nat
deriving DecidableEq, Repr, Inhabited

namespace FileGraph

def methodName? (graph : FileGraph) (call : Nat) : Option String :=
  (graph.arena.callee? call).bind fun callee =>
    match graph.arena.kind callee with
    | .member (.named name) => some name
    | _ => none

def eventArgs? (graph : FileGraph) (call : Nat) : Option (String × Nat) :=
  match graph.arena.callArgs call with
  | event :: value :: _ => (graph.arena.string? event).map fun name => (name, value)
  | _ => none

def listening (graph : FileGraph) (event : String) (value : Nat) : List ChannelEnd :=
  (graph.heap.functionsOf value).filterMap fun function =>
    ((graph.arena.functionParts? function).bind (·.params.head?)).map fun param => ⟨event, param⟩

def valuesUnder (graph : FileGraph) (object : Nat) (key : String) : List Nat :=
  ((graph.arena.children object).filter fun property =>
    (graph.arena.propertyKey? property).bind PropKey.name? == some key).filterMap
      graph.arena.propertyValue?

def navigationListeners (graph : FileGraph) (options : Nat) : List ChannelEnd :=
  (graph.valuesUnder options "events").flatMap fun events =>
    (graph.arena.children events).flatMap fun entry =>
      let name? := (graph.arena.propertyKey? entry).bind PropKey.name?
      match name?, graph.arena.propertyValue? entry with
      | some event, some value => graph.listening event value
      | _, _ => []

def calls (graph : FileGraph) : List Nat :=
  graph.arena.ids.filter fun id => graph.arena.kind id = .call

def emits (graph : FileGraph) : List ChannelEnd :=
  graph.calls.filterMap fun call =>
    if graph.methodName? call = some "emit" then
      (graph.eventArgs? call).map fun (event, value) => ⟨event, value⟩
    else none

def listeners (graph : FileGraph) : List ChannelEnd :=
  graph.calls.flatMap fun call =>
    match graph.methodName? call with
    | some "on" =>
      (graph.eventArgs? call).toList.flatMap fun (event, value) => graph.listening event value
    | some "navigateTo" | some "redirectTo" =>
      ((graph.arena.callArgs call).take 1).flatMap graph.navigationListeners
    | _ => []

end FileGraph

end Seepage
