import Seepage.Tree.Arena

set_option autoImplicit false

namespace Seepage

namespace Syntree

def dottedName? : Syntree → Option String
  | .node node children =>
    match node.kind, children with
    | .ident name _, _ => some name
    | .this, _ => some "this"
    | .member (.named name), object :: _ => (dottedName? object).map (· ++ "." ++ name)
    | _, _ => none

mutual

-- The identifiers that a pattern binds; properties count only as members of an object pattern.
def bindings (asMember : Bool) : Syntree → List Nat
  | .node node children =>
    match node.kind, children with
    | .ident .., _ => [node.id]
    | .objectPattern, members => bindingsAll true members
    | .arrayPattern, elements => bindingsAll false elements
    | .assignPattern, target :: _ => bindings false target
    | .rest, target :: _ => bindings false target
    | .property (.named _), value :: _ => if asMember then bindings false value else []
    | .property .computed, _ :: value :: _ => if asMember then bindings false value else []
    | _, _ => []

def bindingsAll (asMember : Bool) : List Syntree → List Nat
  | [] => []
  | tree :: rest => bindings asMember tree ++ bindingsAll asMember rest

end

end Syntree

structure FunctionParts where
  entry : Nat
  exit : Nat
  params : List Nat
  body : Option Nat
deriving DecidableEq, Repr

namespace Arena

def dottedName? (arena : Arena) (id : Nat) : Option String :=
  Syntree.dottedName? (arena.subtree id)

def bindings (arena : Arena) (pattern : Nat) : List Nat :=
  Syntree.bindings false (arena.subtree pattern)

def functionParts? (arena : Arena) (id : Nat) : Option FunctionParts :=
  match arena.kind id, arena.children id with
  | .function _ _ paramCount _, entry :: exit :: rest =>
    some ⟨entry, exit, rest.take paramCount, rest[paramCount]?⟩
  | _, _ => none

def callArgs (arena : Arena) (id : Nat) : List Nat :=
  if (arena.kind id).isCallLike then (arena.children id).drop 1 else []

def callee? (arena : Arena) (id : Nat) : Option Nat :=
  if (arena.kind id).isCallLike then arena.child? id 0 else none

def calleeName? (arena : Arena) (id : Nat) : Option String :=
  (arena.callee? id).bind arena.dottedName?

def identName? (arena : Arena) (id : Nat) : Option String :=
  match arena.kind id with
  | .ident name _ => some name
  | _ => none

def string? (arena : Arena) (id : Nat) : Option String :=
  match arena.kind id with
  | .literal (.string value) => some value
  | _ => none

def propertyKey? (arena : Arena) (id : Nat) : Option PropKey :=
  match arena.kind id with
  | .property key => some key
  | _ => none

def propertyValue? (arena : Arena) (id : Nat) : Option Nat :=
  match arena.kind id with
  | .property (.named _) => arena.child? id 0
  | .property .computed => arena.child? id 1
  | _ => none

def functionName? (arena : Arena) (id : Nat) : Option String :=
  match arena.kind id with
  | .function name _ _ _ =>
    let key := (arena.parent? id).bind arena.propertyKey? |>.bind PropKey.name?
    key.or name
  | _ => none

def enclosingMethod? (arena : Arena) (id : Nat) : Option String :=
  ((arena.ancestors id).filterMap arena.functionName?).getLast?

def hasSuffix (text ending : String) : Bool :=
  ending.toList.isSuffixOf text.toList

def holdsMarkupValues (object : String) : Bool :=
  hasSuffix object "detail.value" || object == "data" || hasSuffix object ".data"

def isBindingTarget (arena : Arena) (name : String) (node : Node) : Bool :=
  match node.kind with
  | .ident found role =>
    found == name &&
      (role.reads || node.ancestors.head?.any fun above => (arena.propertyKey? above).isSome)
  | .member (.named found) =>
    found == name &&
      ((node.children.head?.bind arena.dottedName?).any holdsMarkupValues)
  | _ => false

def bindingTargets (arena : Arena) (name : String) : List Nat :=
  (arena.nodes.filter (arena.isBindingTarget name)).map (·.id)

end Arena

end Seepage
