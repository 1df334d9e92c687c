set_option autoImplicit false

namespace Seepage.Script

-- A half-open source range. The first byte of a file has position 1.
structure Span where
  lo : Nat := 0
  hi : Nat := 0
deriving DecidableEq, Repr, Inhabited

structure Ident where
  name : String
  span : Span
deriving DecidableEq, Repr, Inhabited

inductive VarKind where
  | varBinding
  | letBinding
  | constBinding
deriving DecidableEq, Repr, Inhabited

-- Numbers are kept as the shortest decimal text of their value, big integers in decimal.
inductive Literal where
  | string (value : String)
  | number (text : String)
  | bool (value : Bool)
  | null
  | regex (pattern : String)
  | bigInt (text : String)
deriving DecidableEq, Repr, Inhabited

inductive MethodForm where
  | method
  | getter
  | setter
deriving DecidableEq, Repr, Inhabited

inductive TypeForm where
  | nonNull
  | before
  | asType
  | asConst
  | satisfies
  | instantiation
deriving DecidableEq, Repr, Inhabited

mutual

-- Expressions. `spread` and `hole` occur only among call arguments and array elements.
inductive Expr where
  | this (span : Span)
  | ident (id : Ident)
  | literal (value : Literal) (span : Span)
  | array (elements : List Expr) (span : Span)
  | object (members : List ObjectMember) (span : Span)
  | function (name : Option Ident) (body : Function)
  | arrow (body : Function)
  | classExpr (name : Option Ident) (parent : Option Expr) (members : List ClassMember)
      (span : Span)
  | unary (op : String) (operand : Expr) (span : Span)
  | update (op : String) (before : Bool) (operand : Expr) (span : Span)
  | binary (op : String) (left right : Expr) (span : Span)
  | assign (op : String) (target value : Expr) (span : Span)
  | assignPattern (target : Pattern) (value : Expr) (span : Span)
  | member (object : Expr) (key : Key) (chained : Bool) (span : Span)
  | superMember (keyword : Span) (key : Key) (span : Span)
  | conditional (test consequent alternate : Expr) (span : Span)
  | call (callee : Expr) (args : List Expr) (chained : Bool) (span : Span)
  | new (callee : Expr) (args : List Expr) (span : Span)
  | sequence (exprs : List Expr) (span : Span)
  | template (raw : String) (exprs : List Expr) (span : Span)
  | tagged (tag : Expr) (exprs : List Expr) (span : Span)
  | yield (argument : Option Expr) (span : Span)
  | await (argument : Expr) (span : Span)
  | paren (inner : Expr) (span : Span)
  | typed (form : TypeForm) (inner : Expr) (span : Span)
  | spread (inner : Expr) (span : Span)
  | hole (span : Span)
  | missing (span : Span)
  | unsupported (what : String) (span : Span)

inductive Key where
  | named (name : String)
  | privateName (name : String)
  | computed (key : Expr)

inductive ObjectMember where
  | shorthand (id : Ident)
  | keyed (key : Key) (value : Expr) (span : Span)
  -- `x = e` inside braces: only legal when the literal turns out to be a pattern.
  | initialized (id : Ident) (value : Expr) (span : Span)
  | method (key : Key) (form : MethodForm) (body : Function) (span : Span)
  | spread (value : Expr) (span : Span)

inductive Function where
  | mk (params : List Param) (body : Body) (span : Span)

inductive Param where
  | ident (id : Ident)
  | array (elements : List Pattern) (span : Span)
  | object (members : List PatternMember) (span : Span)
  | rest (inner : Pattern) (span : Span)
  | initialized (target : Pattern) (value : Expr) (span : Span)
  | unsupported (what : String) (span : Span)

inductive Body where
  | absent
  | block (body : Block)
  | expr (value : Expr)

inductive ClassMember where
  | constructor (body : Function)
  | method (key : Key) (form : MethodForm) (body : Function)
  | field (key : Key) (value : Option Expr) (span : Span)
  | staticBlock (body : Block) (span : Span)

inductive Pattern where
  | ident (id : Ident)
  | array (elements : List Pattern) (span : Span)
  | object (members : List PatternMember) (span : Span)
  | rest (inner : Pattern) (span : Span)
  | initialized (target : Pattern) (value : Expr) (span : Span)
  | expr (target : Expr)
  | unsupported (what : String) (span : Span)

inductive PatternMember where
  | keyed (key : Key) (value : Pattern) (span : Span)
  | shorthand (id : Ident) (value : Option Expr) (span : Span)
  | rest (inner : Pattern) (span : Span)

inductive Block where
  | mk (body : List Stmt) (span : Span)

inductive Declarator where
  | mk (target : Pattern) (value : Option Expr) (span : Span)

inductive ForHead where
  | vars (kind : VarKind) (declarators : List Declarator) (span : Span)
  | expr (value : Expr)
  | pattern (target : Pattern)

inductive SwitchCase where
  | mk (test : Option Expr) (body : List Stmt) (span : Span)

inductive Handler where
  | absent
  | bare (body : Block) (span : Span)
  | binding (param : Pattern) (body : Block) (span : Span)

inductive Stmt where
  | block (body : Block)
  | empty (span : Span)
  | expr (value : Expr) (span : Span)
  | vars (kind : VarKind) (declarators : List Declarator) (span : Span)
  | function (name : String) (body : Function)
  | classDecl (name : Option String) (parent : Option Expr) (members : List ClassMember)
      (span : Span)
  | withStmt (object : Expr) (body : Stmt) (span : Span)
  | returnStmt (argument : Option Expr) (span : Span)
  | throwStmt (argument : Expr) (span : Span)
  | labeled (label : String) (body : Stmt) (span : Span)
  | breakStmt (label : Option String) (span : Span)
  | continueStmt (label : Option String) (span : Span)
  | ifThen (test : Expr) (consequent : Stmt) (span : Span)
  | ifElse (test : Expr) (consequent alternate : Stmt) (span : Span)
  | switchStmt (subject : Expr) (cases : List SwitchCase) (span : Span)
  | tryStmt (body : Block) (handler : Handler) (finalizer : Option Block) (span : Span)
  | whileStmt (test : Expr) (body : Stmt) (span : Span)
  | doWhile (body : Stmt) (test : Expr) (span : Span)
  | forStmt (init : Option ForHead) (test update : Option Expr) (body : Stmt) (span : Span)
  | forIn (head : ForHead) (object : Expr) (body : Stmt) (span : Span)
  | forOf (head : ForHead) (object : Expr) (body : Stmt) (span : Span)
  | importDecl (source : String) (locals : List Ident) (span : Span)
  | exportDefault (value : Expr) (span : Span)
  | unsupported (what : String) (span : Span)

end

def Function.span : Function → Span
  | .mk _ _ span => span

def Expr.span : Expr → Span
  | .this span | .literal _ span | .array _ span | .object _ span | .classExpr _ _ _ span
  | .unary _ _ span | .update _ _ _ span | .binary _ _ _ span | .assign _ _ _ span
  | .assignPattern _ _ span | .member _ _ _ span | .superMember _ _ span
  | .conditional _ _ _ span | .call _ _ _ span | .new _ _ span | .sequence _ span
  | .template _ _ span | .tagged _ _ span | .yield _ span | .await _ span | .paren _ span
  | .typed _ _ span | .spread _ span | .hole span | .missing span | .unsupported _ span => span
  | .ident id => id.span
  | .function _ body | .arrow body => body.span

def Pattern.span : Pattern → Span
  | .ident id => id.span
  | .array _ span | .object _ span | .rest _ span | .initialized _ _ span | .unsupported _ span =>
    span
  | .expr target => target.span

def Pattern.toParam : Pattern → Param
  | .ident id => .ident id
  | .array elements span => .array elements span
  | .object members span => .object members span
  | .rest inner span => .rest inner span
  | .initialized target value span => .initialized target value span
  | .expr target => .unsupported "invalid pattern" target.span
  | .unsupported what span => .unsupported what span

def Pattern.withSpan : Pattern → Span → Pattern
  | .ident id, span => .ident { id with span }
  | .array elements _, span => .array elements span
  | .object members _, span => .object members span
  | .rest inner _, span => .rest inner span
  | .initialized target value _, span => .initialized target value span
  | .expr target, _ => .expr target
  | .unsupported what _, span => .unsupported what span

def Expr.isArrow : Expr → Bool
  | .arrow _ => true
  | _ => false

def Expr.isChained : Expr → Bool
  | .member _ _ chained _ | .call _ _ chained _ => chained
  | _ => false

def Expr.continuesChain : Expr → Bool
  | .typed .nonNull inner _ => inner.continuesChain
  | expr => expr.isChained

structure Program where
  body : List Stmt
  span : Span

instance : Inhabited Expr := ⟨.hole default⟩
instance : Inhabited Pattern := ⟨.unsupported "" default⟩
instance : Inhabited Stmt := ⟨.empty default⟩
instance : Inhabited Block := ⟨.mk [] default⟩
instance : Inhabited Function := ⟨.mk [] .absent default⟩

end Seepage.Script
