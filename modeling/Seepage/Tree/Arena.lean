import Seepage.Script.File
import Seepage.Tree.Lowering
import Seepage.Tree.Rose

set_option autoImplicit false

namespace Seepage

open Script (Span)

structure Place where
  span : Span
  line : Nat
  column : Nat
deriving DecidableEq, Repr, Inhabited

structure Node where
  id : Nat
  kind : Kind
  place : Place
  ancestors : List Nat
  children : List Nat
deriving DecidableEq, Repr, Inhabited

abbrev Syntree := Rose Node

instance : Inhabited Syntree := ⟨.leaf default⟩

def Place.ofSpan (starts : List Nat) (span : Span) : Place :=
  let (line, column) := Text.lineColumn starts span.lo
  ⟨span, line, column⟩

namespace Node

def push (starts : List Nat) (nodes : Array Node) (kind : Kind) (span : Span) (parent? : Option Nat) :
    Array Node :=
  let id := nodes.size
  let own (ancestors : List Nat) : Node := ⟨id, kind, .ofSpan starts span, ancestors, []⟩
  match parent? with
  | none => nodes.push (own [])
  | some parent =>
    let above := nodes.getD parent default
    (nodes.setIfInBounds parent { above with children := above.children ++ [id] }).push
      (own (parent :: above.ancestors))

def sink (starts : List Nat) : Sink (Array Node → Array Node) (Option Nat) where
  node kind span parent? children nodes :=
    (children (some nodes.size)).foldl (fun nodes child => child nodes)
      (push starts nodes kind span parent?)

def subtrees (nodes : List Node) : List Syntree :=
  nodes.foldr (fun node later => .node node (node.children.map fun child =>
    later.getD (child - node.id - 1) default) :: later) []

end Node

structure Arena where
  file : String
  tree : Syntree
  subtrees : Array Syntree
deriving Inhabited

namespace Arena

def ofNodes (file : String) (nodes : Array Node) : Arena :=
  let subtrees := Node.subtrees nodes.toList
  ⟨file, subtrees.headD default, subtrees.toArray⟩

def size (arena : Arena) : Nat :=
  arena.subtrees.size

def isEmpty (arena : Arena) : Bool :=
  arena.size ≤ 3

def subtree (arena : Arena) (id : Nat) : Syntree :=
  arena.subtrees.getD id default

def node (arena : Arena) (id : Nat) : Node :=
  (arena.subtree id).label

def node? (arena : Arena) (id : Nat) : Option Node :=
  arena.subtrees[id]?.map (·.label)

def nodes (arena : Arena) : List Node :=
  arena.subtrees.toList.map (·.label)

def ids (arena : Arena) : List Nat :=
  List.range arena.size

def kind (arena : Arena) (id : Nat) : Kind :=
  (arena.node id).kind

def place (arena : Arena) (id : Nat) : Place :=
  (arena.node id).place

def children (arena : Arena) (id : Nat) : List Nat :=
  (arena.node id).children

def child? (arena : Arena) (id index : Nat) : Option Nat :=
  (arena.children id)[index]?

def ancestors (arena : Arena) (id : Nat) : List Nat :=
  (arena.node id).ancestors

def parent? (arena : Arena) (id : Nat) : Option Nat :=
  (arena.ancestors id).head?

def root : Nat := 0

def owner (arena : Arena) (id : Nat) : Nat :=
  ((arena.ancestors id).find? fun above => (arena.kind above).isOwner).getD root

def thisOwner (arena : Arena) (id : Nat) : Nat :=
  ((arena.ancestors id).find? fun above => (arena.kind above).bindsThis).getD root

def entryOf (arena : Arena) (owner : Nat) : Nat :=
  (arena.child? owner 0).getD 0

def exitOf (arena : Arena) (owner : Nat) : Nat :=
  (arena.child? owner 1).getD 0

end Arena

inductive IngestError where
  | unreadable (file message : String)
  | unparseable (file message : String) (count : Nat)
deriving DecidableEq, Repr, Inhabited

namespace IngestError

def file : IngestError → String
  | .unreadable file _ | .unparseable file _ _ => file

def message : IngestError → String
  | .unreadable file message => file ++ ": cannot read source: " ++ message
  | .unparseable file message count =>
    file ++ ": no syntax tree (" ++ toString count ++ " parse errors, first: " ++ message ++ ")"

end IngestError

def Arena.ofFile (file : Script.File) : Except IngestError Arena :=
  match file.program? with
  | some program =>
    .ok (.ofNodes file.name (lowerProgram (Node.sink file.lineStarts) none program #[]))
  | none =>
    let first := match file.errors with
      | error :: _ => error.text
      | [] => "no syntax tree produced"
    .error (.unparseable file.name first file.errors.length)

def Arena.ofSource (name source : String) : Except IngestError Arena :=
  Arena.ofFile (Script.File.read name source)

end Seepage
