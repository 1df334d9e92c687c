import Seepage.Flow.Value
import Seepage.Scope.Resolution

set_option autoImplicit false

namespace Seepage.Alias

structure Options where
  prototypeFallback : Bool := true
  -- With more objects than this, such a look-up is given up.
  maxFallbackOwners : Option Nat := none
deriving DecidableEq, Repr, Inhabited

-- The key that stands for every property: computed keys and the elements of arrays.
def anyKey : String := "*"

inductive Rule where
  | copy (source target : Nat)
  | identRead (node symbol : Nat)
  | identWrite (node symbol : Nat)
  | declaration (node symbol : Nat)
  | this (node owner : Nat)
  | read (object : Nat) (key : Option String) (target : Nat)
  | write (member object : Nat) (key : Option String) (value : Nat)
  | member (holder property : Nat) (key : Option String) (value : Option Nat)
  | call (call callee : Nat) (isNew : Bool)
deriving DecidableEq, Repr, Inhabited

namespace Rule

def ofTarget (arena : Arena) (id object : Nat) (key : Option String) : List Rule :=
  match arena.parent? id with
  | some parent =>
    match arena.kind parent, arena.children parent with
    | .assign _, target :: value :: _ => if target = id then [.write id object key value] else []
    | _, _ => []
  | none => []

def ofProperty (arena : Arena) (id : Nat) (key : Option String) : List Rule :=
  match arena.parent? id with
  | some holder =>
    match arena.kind holder with
    | .object | .classDef .. => [.member holder id key (arena.propertyValue? id)]
    | .objectPattern => (arena.propertyValue? id).toList.map (.read holder key)
    | _ => []
  | none => []

def ofNode (arena : Arena) (resolution : Resolution) (node : Node) : List Rule :=
  let id := node.id
  let symbol := resolution.symbolOf[id]?
  match node.kind with
  | .ident _ role =>
    symbol.toList.flatMap fun symbol =>
      (if role.reads then [.identRead id symbol] else []) ++
        if role.writes then [.identWrite id symbol] else []
  | .function .. | .classDef .. => symbol.toList.map (.declaration id)
  | .this => [.this id (arena.thisOwner id)]
  | .member key =>
    node.children.head?.toList.flatMap fun object =>
      ofTarget arena id object key.name? ++
        if arena.isPureWriteTarget id then [] else [.read object key.name? id]
  | .property key => ofProperty arena id key.name?
  | .call | .new => (arena.callee? id).toList.map fun callee => .call id callee (node.kind = .new)
  | _ => []

end Rule

structure Problem where
  arena : Arena
  options : Options
  rules : List Rule
  returns : Std.TreeMap Nat (List Nat)

namespace Problem

def noteReturn (arena : Arena) (found : Std.TreeMap Nat (List Nat)) (node : Node) :
    Std.TreeMap Nat (List Nat) :=
  match node.kind with
  | .returnStmt true =>
    let owner := arena.owner node.id
    found.insert owner (found.getD owner [] ++ [node.id])
  | _ => found

def returnsOf (arena : Arena) : Std.TreeMap Nat (List Nat) :=
  arena.nodes.foldl (noteReturn arena) ∅

def ofArena (arena : Arena) (resolution : Resolution) (copies : List (Nat × Nat))
    (options : Options) : Problem where
  arena
  options
  rules := copies.map (fun (source, target) => .copy source target) ++
    arena.nodes.flatMap (Rule.ofNode arena resolution)
  returns := returnsOf arena

end Problem

end Seepage.Alias
