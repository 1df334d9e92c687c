set_option autoImplicit false

namespace Seepage

inductive ScopeKind where
  | global
  | function
  | block
  | forLoop
  | caught
  | classBody
  | unresolved
deriving DecidableEq, Repr, Inhabited

def ScopeKind.isHoistTarget : ScopeKind → Bool
  | .global | .function => true
  | _ => false

structure Scope where
  kind : ScopeKind
  ancestors : List Nat
  node : Nat
deriving DecidableEq, Repr, Inhabited

namespace Scope

def parent? (scope : Scope) : Option Nat :=
  scope.ancestors.head?

end Scope

structure ScopeTree where
  scopes : Array Scope := #[]
deriving Inhabited

namespace ScopeTree

def size (tree : ScopeTree) : Nat :=
  tree.scopes.size

def get (tree : ScopeTree) (id : Nat) : Scope :=
  tree.scopes.getD id default

def chain (tree : ScopeTree) (id : Nat) : List Nat :=
  id :: (tree.get id).ancestors

def create (tree : ScopeTree) (kind : ScopeKind) (parent : Option Nat) (node : Nat) : ScopeTree :=
  let ancestors := match parent with
    | some id => tree.chain id
    | none => []
  ⟨tree.scopes.push ⟨kind, ancestors, node⟩⟩

def root? (tree : ScopeTree) : Option Nat :=
  if tree.size = 0 then none else some 0

def ids (tree : ScopeTree) : List Nat :=
  List.range tree.size

def children (tree : ScopeTree) (id : Nat) : List Nat :=
  tree.ids.filter fun child => (tree.get child).parent? == some id

def isWithin (tree : ScopeTree) (scope ancestor : Nat) : Bool :=
  (tree.chain scope).contains ancestor

def hoistTarget (tree : ScopeTree) (id : Nat) : Nat :=
  ((tree.chain id).find? fun above => (tree.get above).kind.isHoistTarget).getD id

end ScopeTree

inductive SymbolKind where
  | variable
  | constant
  | function
  | classDef
  | parameter
  | imported
  | implicit
deriving DecidableEq, Repr, Inhabited

structure Symbol where
  name : String
  kind : SymbolKind
  scope : Nat
  declaration : Nat
  references : Array Nat := #[]
deriving DecidableEq, Repr, Inhabited

structure SymbolTable where
  symbols : Array Symbol := #[]
deriving Inhabited

namespace SymbolTable

def size (table : SymbolTable) : Nat :=
  table.symbols.size

def get (table : SymbolTable) (id : Nat) : Symbol :=
  table.symbols.getD id default

def findLocal? (table : SymbolTable) (name : String) (scope : Nat) : Option Nat :=
  table.symbols.findIdx? fun symbol => symbol.scope == scope && symbol.name == name

def find? (table : SymbolTable) (name : String) (scopes : List Nat) : Option Nat :=
  scopes.findSome? (table.findLocal? name)

def declare (table : SymbolTable) (name : String) (kind : SymbolKind) (scope node : Nat) :
    SymbolTable :=
  match table.findLocal? name scope with
  | some _ => table
  | none => ⟨table.symbols.push { name, kind, scope, declaration := node }⟩

def addReference (table : SymbolTable) (id node : Nat) : SymbolTable :=
  ⟨table.symbols.modify id fun symbol =>
    { symbol with references := symbol.references.push node }⟩

end SymbolTable

end Seepage
