import Seepage.Scope.Basic
import Seepage.Tree.Name

set_option autoImplicit false

namespace Seepage

-- A name about to be declared. `ownNode` tells that the node is a function or class that carries
-- the name itself, and not an identifier.
structure Hoisted where
  name : String
  kind : SymbolKind
  node : Nat
  ownNode : Bool := false
deriving DecidableEq, Repr, Inhabited

namespace Kind

def isPlainExpression : Kind → Bool
  | .ident .. | .literal _ | .this | .array | .object | .call | .new | .member _ | .assign _
  | .binary _ | .unary _ | .update .. | .conditional | .sequence | .template | .tagged | .await
  | .yield _ => true
  | _ => false

end Kind

def hoistIdents (arena : Arena) (kind : SymbolKind) (idents : List Nat) : List Hoisted :=
  idents.filterMap fun id => (arena.identName? id).map fun name => { name, kind, node := id }

def declaratorIdents (declarators : List Syntree) : List Nat :=
  declarators.flatMap fun declarator =>
    match declarator.children with
    | pattern :: _ => Syntree.bindings false pattern
    | [] => []

mutual

def hoistedVars (arena : Arena) : Syntree → List Hoisted
  | .node node children =>
    match node.kind with
    | .function .. | .classDef .. => []
    | .varDecl .varBinding => hoistIdents arena .variable (declaratorIdents children)
    | .varDecl _ => []
    | kind => if kind.isPlainExpression then [] else hoistedVarsAll arena children

def hoistedVarsAll (arena : Arena) : List Syntree → List Hoisted
  | [] => []
  | tree :: rest => hoistedVars arena tree ++ hoistedVarsAll arena rest

end

def hoistedHere (arena : Arena) (stmt : Syntree) : List Hoisted :=
  let node := stmt.label
  match node.kind with
  | .function (some name) .declaration _ _ =>
    [{ name, kind := .function, node := node.id, ownNode := true }]
  | .classDef (some name) true _ =>
    [{ name, kind := .classDef, node := node.id, ownNode := true }]
  | .varDecl .constBinding => hoistIdents arena .constant (declaratorIdents stmt.children)
  | .varDecl .letBinding => hoistIdents arena .variable (declaratorIdents stmt.children)
  | .importDecl _ => hoistIdents arena .imported node.children
  | _ => []

def hoistedBlock (arena : Arena) (stmts : List Syntree) : List Hoisted :=
  stmts.flatMap (hoistedHere arena)

end Seepage
