import Seepage.Script.Reader

set_option autoImplicit false

namespace Seepage.Script

inductive PatternUse where
  | binding
  | target
  | element
deriving DecidableEq, Repr, Inhabited

def PatternUse.inner : PatternUse → PatternUse
  | .binding => .binding
  | .target | .element => .element

inductive Goal where
  | expr
  | assign
  | unary
  | binary
  | operators (left : Expr) (least : Nat)
  | newOperand
  | leftHand
  | object
  | stmt (declarations : Bool)
  | item
  | binding (letAllowed : Bool)
  | params
  | asPattern (use : PatternUse) (expr : Expr)
  | heritage
  | type
  | plainType
  | typeOperand

def Goal.Result : Goal → Type
  | .stmt _ | .item => Stmt
  | .binding _ | .asPattern .. => Pattern
  | .params => List Pattern
  | .heritage => List Nat
  | .type | .plainType | .typeOperand => Unit
  | .expr | .assign | .unary | .binary | .operators .. | .newOperand | .leftHand | .object => Expr

abbrev Self := (goal : Goal) → Parse goal.Result

namespace Self

def expr (self : Self) : Parse Expr := self .expr
def assign (self : Self) : Parse Expr := self .assign
def unary (self : Self) : Parse Expr := self .unary
def binary (self : Self) : Parse Expr := self .binary
def operators (self : Self) (left : Expr) (least : Nat) : Parse Expr := self (.operators left least)
def newOperand (self : Self) : Parse Expr := self .newOperand
def leftHand (self : Self) : Parse Expr := self .leftHand
def object (self : Self) : Parse Expr := self .object
def stmt (self : Self) (declarations : Bool) : Parse Stmt := self (.stmt declarations)
def item (self : Self) : Parse Stmt := self .item
def binding (self : Self) : Parse Pattern := self (.binding true)
def bindingWithoutLet (self : Self) : Parse Pattern := self (.binding false)
def params (self : Self) : Parse (List Pattern) := self .params
def heritage (self : Self) : Parse (List Nat) := self .heritage
def type (self : Self) : Parse Unit := self .type
def plainType (self : Self) : Parse Unit := self .plainType
def typeOperand (self : Self) : Parse Unit := self .typeOperand

def asPattern (self : Self) (use : PatternUse) (expr : Expr) : Parse Pattern :=
  self (.asPattern use expr)

end Self

end Seepage.Script
