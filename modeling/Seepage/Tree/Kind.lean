import Seepage.Script.Syntax

set_option autoImplicit false

namespace Seepage

open Script (VarKind Literal)

inductive DeclKind where
  | var
  | let
  | const
  | param
  | caught
  | imported
deriving DecidableEq, Repr, Inhabited

def DeclKind.ofVar : VarKind → DeclKind
  | .varBinding => .var
  | .letBinding => .let
  | .constBinding => .const

inductive Role where
  | read
  | write
  | readWrite
  | declare (kind : DeclKind)
deriving DecidableEq, Repr, Inhabited

namespace Role

def reads : Role → Bool
  | .read | .readWrite => true
  | .write | .declare _ => false

def writes : Role → Bool
  | .read => false
  | .write | .readWrite | .declare _ => true

end Role

inductive FunctionForm where
  | declaration
  | expression
  | arrow
  | method
  | getter
  | setter
  | constructor
deriving DecidableEq, Repr, Inhabited

inductive PropKey where
  | named (name : String)
  | computed
deriving DecidableEq, Repr, Inhabited

def PropKey.name? : PropKey → Option String
  | .named name => some name
  | .computed => none

inductive Kind where
  | program -- entry, exit, items…
  | entry
  | exit
  -- entry, exit, params…, body?
  | function (name : Option String) (form : FunctionForm) (paramCount : Nat) (exprBody : Bool)
  | classDef (name : Option String) (isDecl hasParent : Bool) -- parent?, members…
  | varDecl (kind : VarKind)
  | declarator (hasInit : Bool)
  | importDecl (source : String)
  | exportDefault
  | block
  | exprStmt
  | ifStmt (hasAlternate : Bool) -- test, consequent, alternate?
  | forStmt (hasInit hasTest hasUpdate : Bool) -- init?, test?, update?, body
  | forIn -- left, right, body
  | forOf -- left, right, body
  | whileStmt
  | doWhile
  | returnStmt (hasArgument : Bool)
  | throwStmt
  | breakStmt (label : Option String)
  | continueStmt (label : Option String)
  | labeled (label : String)
  | tryStmt (hasHandler hasFinalizer : Bool) -- block, handler?, finalizer?
  | catchClause (hasParam : Bool) -- param?, body
  | switchStmt -- subject, cases…
  | switchCase (isDefault : Bool) -- test?, statements…
  | withStmt
  | empty
  | ident (name : String) (role : Role)
  | literal (value : Literal)
  | this
  | array
  | object
  | property (key : PropKey) -- value?, or key, value? when computed
  | spread
  | call -- callee, args…
  | new -- callee, args…
  | member (key : PropKey) -- object, or object, key when computed
  | assign (op : String)
  | binary (op : String)
  | unary (op : String)
  | update (op : String) (before : Bool)
  | conditional -- test, consequent, alternate
  | sequence
  | template
  | tagged
  | await
  | yield (hasArgument : Bool)
  | objectPattern -- properties and rests…
  | arrayPattern
  | assignPattern -- target, default
  | rest
  | unknown (what : String)
deriving DecidableEq, Repr, Inhabited

namespace Kind

def isFunction : Kind → Bool
  | .function .. => true
  | _ => false

def isOwner : Kind → Bool
  | .program | .function .. => true
  | _ => false

def bindsThis : Kind → Bool
  | .program => true
  | .function _ form _ _ => form != .arrow
  | _ => false

def isCallLike : Kind → Bool
  | .call | .new => true
  | _ => false

def isLogical : Kind → Bool
  | .binary op => op == "&&" || op == "||" || op == "??"
  | _ => false

def label : Kind → String
  | .program => "Program"
  | .entry => "Entry"
  | .exit => "Exit"
  | .function .. => "Function"
  | .classDef .. => "Class"
  | .varDecl _ => "VarDecl"
  | .declarator _ => "VarDeclarator"
  | .importDecl _ => "Import"
  | .exportDefault => "ExportDefault"
  | .block => "Block"
  | .exprStmt => "ExprStmt"
  | .ifStmt _ => "If"
  | .forStmt .. => "For"
  | .forIn => "ForIn"
  | .forOf => "ForOf"
  | .whileStmt => "While"
  | .doWhile => "DoWhile"
  | .returnStmt _ => "Return"
  | .throwStmt => "Throw"
  | .breakStmt _ => "Break"
  | .continueStmt _ => "Continue"
  | .labeled _ => "Labeled"
  | .tryStmt .. => "Try"
  | .catchClause _ => "CatchClause"
  | .switchStmt => "Switch"
  | .switchCase _ => "SwitchCase"
  | .withStmt => "With"
  | .empty => "Empty"
  | .ident .. => "Ident"
  | .literal _ => "Literal"
  | .this => "This"
  | .array => "Array"
  | .object => "Object"
  | .property _ => "Property"
  | .spread => "Spread"
  | .call => "Call"
  | .new => "New"
  | .member _ => "Member"
  | .assign _ => "Assign"
  | .binary _ => "Binary"
  | .unary _ => "Unary"
  | .update .. => "Update"
  | .conditional => "Conditional"
  | .sequence => "Sequence"
  | .template => "Template"
  | .tagged => "TaggedTemplate"
  | .await => "Await"
  | .yield _ => "Yield"
  | .objectPattern => "ObjectPattern"
  | .arrayPattern => "ArrayPattern"
  | .assignPattern => "AssignPattern"
  | .rest => "Rest"
  | .unknown _ => "Unknown"

end Kind

end Seepage
