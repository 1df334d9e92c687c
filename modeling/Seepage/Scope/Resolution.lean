import Seepage.Diagnostic
import Seepage.Scope.Hoisting
import Std.Data.TreeMap

set_option autoImplicit false

namespace Seepage

def knownGlobals : List String :=
  ["wx", "getApp", "getCurrentPages", "Page", "App", "Component", "Behavior", "require",
   "requirePlugin", "module", "exports", "console", "JSON", "Math", "Object", "Array", "String",
   "Number", "Boolean", "Date", "Promise", "RegExp", "Error", "Symbol", "Map", "Set", "Reflect",
   "parseInt", "parseFloat", "isNaN", "encodeURIComponent", "decodeURIComponent", "setTimeout",
   "setInterval", "clearTimeout", "clearInterval", "undefined", "NaN", "Infinity", "arguments",
   "globalThis", "window", "self", "global"]

structure UnresolvedReference where
  name : String
  node : Nat
  scope : Nat
deriving DecidableEq, Repr, Inhabited

structure Resolution where
  scopes : ScopeTree
  symbols : SymbolTable
  symbolOf : Std.TreeMap Nat Nat
  scopeOf : Std.TreeMap Nat Nat
  unresolved : Array UnresolvedReference

namespace Resolution

def globalScope : Nat := 0

def unresolvedScope : Nat := 1

def initial : Resolution where
  scopes := (ScopeTree.create {} .global none Arena.root).create .unresolved none Arena.root
  symbols := {}
  symbolOf := ∅
  scopeOf := (∅ : Std.TreeMap Nat Nat).insert Arena.root globalScope
  unresolved := #[]

def enter (resolution : Resolution) (kind : ScopeKind) (parent node : Nat) : Resolution :=
  { resolution with
    scopes := resolution.scopes.create kind (some parent) node
    scopeOf := resolution.scopeOf.insert node resolution.scopes.size }

def declare (resolution : Resolution) (scope : Nat) (hoisted : Hoisted) : Resolution :=
  let symbols := resolution.symbols.declare hoisted.name hoisted.kind scope hoisted.node
  { resolution with
    symbols
    symbolOf :=
      if hoisted.ownNode then
        resolution.symbolOf.insert hoisted.node
          ((symbols.findLocal? hoisted.name scope).getD 0)
      else resolution.symbolOf }

def declareAll (resolution : Resolution) (scope : Nat) (hoisted : List Hoisted) : Resolution :=
  hoisted.foldl (·.declare scope ·) resolution

def refer (resolution : Resolution) (node symbol : Nat) : Resolution :=
  { resolution with
    symbolOf := resolution.symbolOf.insert node symbol
    symbols := resolution.symbols.addReference symbol node }

def referNew (resolution : Resolution) (name : String) (kind : SymbolKind) (scope node : Nat) :
    Resolution :=
  let resolution := resolution.declare scope { name, kind, node }
  resolution.refer node ((resolution.symbols.findLocal? name scope).getD 0)

def resolve (resolution : Resolution) (scope node : Nat) (name : String) (role : Role) :
    Resolution :=
  match resolution.symbols.find? name (resolution.scopes.chain scope) with
  | some symbol => resolution.refer node symbol
  | none =>
    match role with
    | .declare kind =>
      let target := if kind = .var then resolution.scopes.hoistTarget scope else scope
      resolution.referNew name .variable target node
    | _ =>
      let resolution :=
        if knownGlobals.contains name then resolution
        else { resolution with unresolved := resolution.unresolved.push ⟨name, node, scope⟩ }
      resolution.referNew name .implicit unresolvedScope node

mutual

def visit (arena : Arena) (isBody : Bool) (scope : Nat) : Syntree → Resolution → Resolution
  | .node node children, resolution =>
    let inner := resolution.scopes.size
    match node.kind, children with
    | .function name form paramCount _, _ :: _ :: parts =>
      let entered := resolution.enter .function scope node.id
      let named := match name, form with
        | some name, .expression =>
          entered.declare inner { name, kind := .function, node := node.id, ownNode := true }
        | _, _ => entered
      let idents := (parts.take paramCount).flatMap (Syntree.bindings false)
      visitParts arena inner paramCount parts
        (named.declareAll inner (hoistIdents arena .parameter idents))
    | .classDef name isDecl _, members =>
      let entered := resolution.enter .classBody scope node.id
      let named := match name, isDecl with
        | some name, false =>
          entered.declare inner { name, kind := .classDef, node := node.id, ownNode := true }
        | _, _ => entered
      visitAll arena inner members named
    | .block, stmts =>
      if isBody then
        let entered := { resolution with scopeOf := resolution.scopeOf.insert node.id scope }
        visitAll arena scope stmts
          ((entered.declareAll scope (hoistedVarsAll arena stmts)).declareAll scope
            (hoistedBlock arena stmts))
      else
        visitAll arena inner stmts
          ((resolution.enter .block scope node.id).declareAll inner (hoistedBlock arena stmts))
    | .switchStmt, parts =>
      let hoisted := (parts.drop 1).flatMap fun case => hoistedBlock arena case.children
      visitAll arena inner parts
        ((resolution.enter .block scope node.id).declareAll inner hoisted)
    | .forStmt .., parts | .forIn, parts | .forOf, parts =>
      visitAll arena inner parts
        ((resolution.enter .forLoop scope node.id).declareAll inner
          (hoistedBlock arena (parts.take 1)))
    | .catchClause hasParam, parts =>
      let idents := if hasParam then (parts.take 1).flatMap (Syntree.bindings false) else []
      visitAll arena inner parts
        ((resolution.enter .caught scope node.id).declareAll inner
          (hoistIdents arena .parameter idents))
    | .ident name role, _ => resolution.resolve scope node.id name role
    | _, children => visitAll arena scope children resolution

def visitAll (arena : Arena) (scope : Nat) : List Syntree → Resolution → Resolution
  | [], resolution => resolution
  | tree :: rest, resolution =>
    visitAll arena scope rest (visit arena false scope tree resolution)

def visitParts (arena : Arena) (scope : Nat) : Nat → List Syntree → Resolution → Resolution
  | _, [], resolution => resolution
  | 0, body :: _, resolution => visit arena true scope body resolution
  | count + 1, param :: rest, resolution =>
    visitParts arena scope count rest (visit arena false scope param resolution)

end

def ofArena (arena : Arena) : Resolution :=
  let stmts := arena.tree.children.drop 2
  let withVars := initial.declareAll globalScope (hoistedVarsAll arena stmts)
  visitAll arena globalScope stmts (withVars.declareAll globalScope (hoistedBlock arena stmts))

def isImplicit (resolution : Resolution) (symbol : Nat) : Bool :=
  (resolution.symbols.get symbol).scope == unresolvedScope

def ownerOf (resolution : Resolution) (arena : Arena) (symbol : Nat) : Nat :=
  let scope := (resolution.symbols.get symbol).scope
  if scope == unresolvedScope then Arena.root
  else
    let node := (resolution.scopes.get scope).node
    if (arena.kind node).isOwner then node else arena.owner node

def diagnostics (resolution : Resolution) (arena : Arena) : List Diagnostic :=
  resolution.unresolved.toList.map fun reference =>
    .atNode arena reference.node .unresolved .info
      ("'" ++ reference.name ++ "' is not declared; treated as global")

end Resolution

end Seepage
