import Seepage.Graph.Edge
import Seepage.Tree.Name

set_option autoImplicit false

namespace Seepage

-- A flow of a value. `isCopy` tells that the value arrives as it is, so that what it refers to
-- stays the same.
structure ValueFlow where
  source : Nat
  target : Nat
  kind : DataKind
  isCopy : Bool
deriving DecidableEq, Repr, Inhabited

namespace ValueFlow

def part (source target : Nat) (kind : DataKind) : ValueFlow :=
  ⟨source, target, kind, false⟩

def copy (source target : Nat) (kind : DataKind) : ValueFlow :=
  ⟨source, target, kind, true⟩

def bind (arena : Arena) (value target : Nat) (kind : DataKind) : ValueFlow :=
  match arena.kind target with
  | .member _ => part value target .propertyWrite
  | _ => copy value target kind

end ValueFlow

def Arena.isPureWriteTarget (arena : Arena) (id : Nat) : Bool :=
  match arena.parent? id with
  | some parent =>
    match arena.kind parent with
    | .assign op => op == "=" && arena.child? parent 0 == some id
    | _ => false
  | none => false

def Arena.iterationTargets (arena : Arena) (head : Nat) : List Nat :=
  match arena.kind head with
  | .varDecl _ => (arena.children head).filterMap (arena.child? · 0)
  | _ => [head]

def Arena.memberTarget? (arena : Arena) (id : Nat) : Option Nat :=
  match arena.kind id with
  | .property _ => arena.propertyValue? id
  | _ => some id

def valueFlowsOf (arena : Arena) (node : Node) : List ValueFlow :=
  let id := node.id
  match node.kind, node.children with
  | .declarator true, target :: value :: _ => [.bind arena value target .defUse]
  | .assign op, target :: value :: _ =>
    [.bind arena value target .defUse, .copy value id .compose] ++
      if op = "=" then [] else [.part target id .compose]
  | .forIn, head :: object :: _ | .forOf, head :: object :: _ =>
    (arena.iterationTargets head).map fun target => .part object target .propertyRead
  | .binary _, operands =>
    operands.map fun operand => ⟨operand, id, .compose, node.kind.isLogical⟩
  | .unary _, parts | .update .., parts | .template, parts | .tagged, parts | .spread, parts
  | .yield _, parts | .array, parts | .object, parts =>
    parts.map fun child => .part child id .compose
  | .property _, _ =>
    if node.ancestors.head?.any fun parent => arena.kind parent = .object then
      (arena.propertyValue? id).toList.map fun value => .part value id .compose
    else []
  | .conditional, _ :: consequent :: alternate :: _ =>
    [.copy consequent id .compose, .copy alternate id .compose]
  | .sequence, exprs => exprs.getLast?.toList.map fun last => .copy last id .compose
  | .await, argument :: _ => [.copy argument id .compose]
  | .returnStmt true, argument :: _ => [.copy argument id .compose]
  | .member _, object :: _ =>
    if arena.isPureWriteTarget id then [] else [.part object id .propertyRead]
  | .objectPattern, members =>
    (members.filterMap arena.memberTarget?).map fun target => .part id target .propertyRead
  | .arrayPattern, elements => elements.map fun element => .part id element .propertyRead
  | .assignPattern, target :: default :: _ =>
    [.copy default id .compose, .bind arena id target .defUse]
  | .rest, target :: _ => [.copy id target .compose]
  | _, _ => []

def valueFlows (arena : Arena) : List ValueFlow :=
  arena.nodes.flatMap (valueFlowsOf arena)

end Seepage
