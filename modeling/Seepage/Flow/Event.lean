import Seepage.Flow.Control
import Seepage.Scope.Resolution

set_option autoImplicit false

namespace Seepage

inductive Event where
  | use (node symbol : Nat)
  | define (node symbol : Nat)
deriving DecidableEq, Repr, Inhabited

namespace Event

-- How a tree is being read: as an expression, as a pattern whose names may be defined, or as a
-- member of an object pattern.
inductive Mode where
  | expr
  | pattern (defines : Bool)
  | member (defines : Bool)
deriving DecidableEq, Repr, Inhabited

def Mode.defines? : Mode → Option Bool
  | .expr => none
  | .pattern defines => some defines
  | .member defines => some defines

def definition (resolution : Resolution) (id : Nat) : List Event :=
  (resolution.symbolOf[id]?).toList.map (.define id)

def usage (resolution : Resolution) (id : Nat) : List Event :=
  (resolution.symbolOf[id]?).toList.map (.use id)

def ofIdent (resolution : Resolution) (id : Nat) (role : Role) : List Event :=
  (if role.reads then usage resolution id else []) ++
    match role with
    | .write | .readWrite => definition resolution id
    | .read | .declare _ => []

mutual

def ofTree (resolution : Resolution) (control : ControlFlow) (vertex : Nat) (mode : Mode) :
    Syntree → List Event
  | .node node children =>
    match mode, node.kind, children with
    | .member defines, .property (.named _), values =>
      ofTrees resolution control vertex (.pattern defines) values
    | .member defines, .property .computed, key :: values =>
      ofTree resolution control vertex .expr key ++
        ofTrees resolution control vertex (.pattern defines) values
    | .member _, .property .computed, [] => []
    | mode, kind, children =>
      match mode.defines?, kind, children with
      | some defines, .ident .., _ => if defines then definition resolution node.id else []
      | some defines, .objectPattern, members =>
        ofTrees resolution control vertex (.member defines) members
      | some defines, .arrayPattern, elements =>
        ofTrees resolution control vertex (.pattern defines) elements
      | some defines, .assignPattern, target :: default :: _ =>
        ofTree resolution control vertex .expr default ++
          ofTree resolution control vertex (.pattern defines) target
      | some defines, .rest, target :: _ =>
        ofTree resolution control vertex (.pattern defines) target
      | _, kind, children =>
        if node.id != vertex && control.statementOf node.id != some vertex then []
        else
          match kind, children with
          | .function .., _ => if node.id = vertex then definition resolution node.id else []
          | .classDef .., members =>
            ofTrees resolution control vertex .expr members ++ definition resolution node.id
          | .declarator true, target :: value :: _ =>
            ofTree resolution control vertex .expr value ++
              ofTree resolution control vertex (.pattern true) target
          | .declarator false, target :: _ =>
            ofTree resolution control vertex (.pattern false) target
          | .importDecl _, names => names.flatMap fun name => definition resolution name.label.id
          | .assign op, target :: value :: _ =>
            let before := match op, target.label.kind with
              | "=", _ => []
              | _, .ident .. => usage resolution target.label.id
              | _, _ => []
            let targetMode := match target.label.kind with
              | .member _ => Mode.expr
              | _ => .pattern true
            before ++ ofTree resolution control vertex .expr value ++
              ofTree resolution control vertex targetMode target
          | .ident _ role, _ => ofIdent resolution node.id role
          | _, children => ofTrees resolution control vertex .expr children

def ofTrees (resolution : Resolution) (control : ControlFlow) (vertex : Nat) (mode : Mode) :
    List Syntree → List Event
  | [] => []
  | tree :: rest =>
    ofTree resolution control vertex mode tree ++ ofTrees resolution control vertex mode rest

end

def iterationPatterns (head : Syntree) : List Syntree :=
  match head.label.kind with
  | .varDecl _ => head.children.filterMap (·.children.head?)
  | _ => [head]

def paramTrees (owner : Syntree) : List Syntree :=
  match owner.label.kind with
  | .function _ _ paramCount _ => (owner.children.drop 2).take paramCount
  | _ => []

-- The events of a vertex. A function's parameters are defined at its entry, an iteration's
-- variables at its head, and a function declaration defines its own name.
def ofVertex (arena : Arena) (resolution : Resolution) (control : ControlFlow)
    (owner vertex : Nat) : List Event :=
  let tree := arena.subtree vertex
  let define := ofTrees resolution control vertex (.pattern true)
  match tree.label.kind, tree.children with
  | .entry, _ => define (paramTrees (arena.subtree owner))
  | .function .., _ => definition resolution vertex
  | .forIn, head :: object :: _ | .forOf, head :: object :: _ =>
    ofTree resolution control vertex .expr object ++ define (iterationPatterns head)
  | .catchClause true, param :: _ => ofTree resolution control vertex (.pattern true) param
  | _, _ => ofTree resolution control vertex .expr tree

end Event

end Seepage
