import Seepage.Taint.Trace

set_option autoImplicit false

namespace Seepage.Taint

structure Sink where
  api : String
  file : String
  node : Nat
  line : Nat
  column : Nat
deriving DecidableEq, Repr, Inhabited

structure PathStep where
  file : String
  node : Nat
  kind : String
  line : Nat
deriving DecidableEq, Repr, Inhabited

def PathStep.cmp (a b : PathStep) : Ordering :=
  compare a.file b.file |>.then (compare a.node b.node) |>.then (compare a.kind b.kind)
    |>.then (compare a.line b.line)

def comparePaths : List PathStep → List PathStep → Ordering
  | [], [] => .eq
  | [], _ :: _ => .lt
  | _ :: _, [] => .gt
  | a :: as, b :: bs => (a.cmp b).then (comparePaths as bs)

structure Finding where
  label : Label
  sourceFile : String
  sink : Sink
  path : List PathStep
  method : Option String
  ident : Option String
  channel : Option String
deriving DecidableEq, Repr, Inhabited

namespace Finding

def source (finding : Finding) : String :=
  finding.label.text

def isInterPage (finding : Finding) : Bool :=
  finding.sourceFile != finding.sink.file

def le (a b : Finding) : Bool :=
  (compare a.sink.file b.sink.file |>.then (compare a.sink.line b.sink.line)
    |>.then (compare a.sink.column b.sink.column) |>.then (a.label.cmp b.label)
    |>.then (comparePaths a.path b.path)).isLE

end Finding

def callAt? (arena : Arena) (id : Nat) : Option Nat :=
  match arena.kind id with
  | .call => some id
  | _ => (arena.parent? id).filter fun parent =>
      arena.kind parent = .call && (arena.callArgs parent).contains id

def sinkAt? (program : Program) (sinks : ApiFilter) (id : GlobalNode) :
    Option (GlobalNode × String) := do
  let graph ← program.graph? id
  let call ← callAt? graph.arena id.node
  let name ← (hostCallName? graph call).filter sinks.admits
  return (⟨id.file, call⟩, name)

structure Hit where
  call : GlobalNode
  api : String
  nodes : List GlobalNode
deriving DecidableEq, Repr, Inhabited

def hits (program : Program) (sinks : ApiFilter) (label : Label) (order : List GlobalNode) :
    List Hit :=
  let found := order.filterMap fun node =>
    (sinkAt? program sinks node).bind fun (call, api) =>
      if label.apiName? = some api then none else some (call, api, node)
  let byCall : Adjacency GlobalNode (String × GlobalNode) := .ofList found
  byCall.toList.filterMap fun (call, reached) =>
    reached.head?.map fun (api, _) => ⟨call, api, reached.map (·.2)⟩

def lastHops (program : Program) (trace : Trace) (node : GlobalNode) :
    List (Option GlobalNode × List GlobalNode) :=
  let before := ((program.predecessors node).map (·.1)).filter trace.ways.contains
  match sortDistinct GlobalNode.le before with
  | [] => [(none, trace.wayTo node)]
  | hops => hops.map fun hop => (some hop, trace.wayTo hop ++ [node])

def waysByHop (program : Program) (trace : Trace) (hit : Hit) :
    Std.TreeMap (Option GlobalNode) (List GlobalNode) :=
  (hit.nodes.flatMap (lastHops program trace)).foldl
    (fun found (hop, path) => found.insertIfNew hop path) ∅

def pathsOf (program : Program) (mode : PathMode) (trace : Trace) (hit : Hit) :
    List (List GlobalNode) :=
  match mode with
  | .deduplicated => hit.nodes.head?.toList.map trace.wayTo
  | .detailed => (waysByHop program trace hit).toList.map (·.2)

def stepAt (program : Program) (id : GlobalNode) : PathStep :=
  let arena := program.arena id
  { file := arena.file
    node := id.node
    kind := (arena.kind id.node).label
    line := (arena.place id.node).line }

def channelAlong (program : Program) : List GlobalNode → Option String
  | a :: b :: rest =>
    let here := if a.file = b.file then none
      else (program.linkBetween? a b).bind (·.channel)
    here.or (channelAlong program (b :: rest))
  | _ => none

def findingOf (program : Program) (label : Label) (hit : Hit) (way : List GlobalNode) : Finding :=
  let path := if way.getLast? = some hit.call then way else way ++ [hit.call]
  let arena := program.arena hit.call
  let place := arena.place hit.call.node
  { label
    sourceFile := (program.arena (path.head?.getD hit.call)).file
    sink := ⟨hit.api, arena.file, hit.call.node, place.line, place.column⟩
    path := path.map (stepAt program)
    method := arena.enclosingMethod? hit.call.node
    ident := path.reverse.findSome? fun id => (program.arena id).identName? id.node
    channel := channelAlong program path }

def findingsOf (program : Program) (settings : Settings) (label : Label) (trace : Trace) :
    List Finding :=
  (hits program settings.sinks label trace.order).flatMap fun hit =>
    (pathsOf program settings.mode trace hit).map (findingOf program label hit)

structure Outcome where
  findings : List Finding
  seeds : Nat
  steps : Nat
deriving DecidableEq, Repr, Inhabited

def conclude (program : Program) (settings : Settings) (traced : List (Label × Trace)) : Outcome :=
  { findings := (traced.flatMap fun (label, found) =>
      findingsOf program settings label found).mergeSort Finding.le
    seeds := traced.length
    steps := (traced.flatMap (·.2.visited)).length }

def analyze (program : Program) (settings : Settings) : Outcome :=
  conclude program settings ((seeds program settings.sources).map fun (label, nodes) =>
    (label, trace program nodes))

def analyzeWithin (budget : Budget) (program : Program) (settings : Settings) :
    Except Overrun Outcome := do
  let traced ← traceAll budget program 0 (seeds program settings.sources)
  return conclude program settings traced

end Seepage.Taint
