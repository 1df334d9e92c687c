import Seepage.Script.Grammar.Statement

set_option autoImplicit false

namespace Seepage.Script

open Parse

namespace TypedDecl

def typeDeclaration (start : Nat) : Parse Stmt := do
  return .unsupported "type declaration" (← spanFrom start)

def skipSecondExtends : Parse Unit := do
  if ← isWord "extends" then
    record (← here) .secondExtends
    loop () fun _ => do
      if (← isEnd) || (← isAt .braceL) then return .inr ()
      advance
      return .inl ()

def interfaceRest (self : Self) : Parse Unit := do
  let id ← anyName
  if reservedTypeNames.contains id.name then record id.span.lo .invalidInterfaceName
  TypeNotation.optionalParams self TypeNotation.ofInterface
  if ← eatWord "extends" then
    let _ ← self.heritage
  skipSecondExtends
  TypeNotation.members self

def aliasRest (self : Self) : Parse Unit := do
  let _ ← anyName
  TypeNotation.optionalParams self TypeNotation.ofInterface
  unless ← eat .assign do failUnexpected "="
  self.type
  expectSemicolon

def enumKey (self : Self) : Parse Unit := do
  expectToken
  let start ← here
  match ← token with
  | .string _ => advance
  | .number _ =>
    advance
    record start .numericEnumMember
  | .punct .bracketL =>
    advance
    let _ ← self.expr
    record start .computedEnumMember
    expect .bracketR
  | _ =>
    let _ ← anyName

def enumMember (self : Self) : Parse Unit := do
  enumKey self
  if ← eat .assign then
    let _ ← self.assign
    if ← eat .comma then return
    unless ← isAt .braceR do
      record (← here) (.expected "," (← get).lexeme.description)
  else if ← eat .comma then return
  else unless ← isAt .braceR do
    let pos ← here
    advance
    record pos .semicolonExpected

def enumRest (self : Self) : Parse Unit := do
  let _ ← anyName
  expect .braceL
  loop () fun _ => do
    if ← isAt .braceR then return .inr ()
    enumMember self
    return .inl ()
  expect .braceR

def namespaceBody (self : Self) : Parse Unit := do
  expect .braceL
  inContext ({ · with topLevel := true }) <| loop () fun _ => do
    if ← isAt .braceR then return .inr ()
    if ← isEnd then
      record (← here) (.expected "\x7d" "<eof>")
      return .inr ()
    let _ ← self.item
    return .inl ()
  let _ ← eat .braceR

def namespaceRest (self : Self) : Parse Unit := do
  loop () fun _ => do
    let _ ← anyName
    return if ← eat .dot then .inl () else .inr ()
  namespaceBody self

def ambientModule (self : Self) : Parse Unit := do
  match ← token with
  | .word "global" | .string _ => advance
  | _ => failUnexpected "global or a string literal"
  if ← isAt .braceL then namespaceBody self else expectSemicolon

def keyed? (self : Self) (start : Nat) (name : String) (ahead : Bool) : Parse (Option Stmt) := do
  let declaring (rest : Parse Unit) : Parse (Option Stmt) := do
    if ahead then advance
    rest
    some <$> typeDeclaration start
  let follows := ahead || (← atReference)
  let onLine := !(← newlineBefore)
  match name with
  | "abstract" =>
    if ahead || (onLine && (← isWord "class")) then
      if ahead then advance
      some <$> classDecl self start true
    else return none
  | "enum" => if follows then declaring (enumRest self) else return none
  | "interface" => if follows then declaring (interfaceRest self) else return none
  | "namespace" => if follows then declaring (namespaceRest self) else return none
  | "type" => if ahead || (onLine && follows) then declaring (aliasRest self) else return none
  | "module" =>
    unless onLine do return none
    if ahead then advance
    expectToken
    if (← token) matches .string _ then
      ambientModule self
      some <$> typeDeclaration start
    else if follows then
      namespaceRest self
      some <$> typeDeclaration start
    else return none
  | _ => return none

def constEnum (self : Self) (start : Nat) : Parse Stmt := do
  advance
  advance
  enumRest self
  typeDeclaration start

def atConstEnum : Parse Bool := do
  return (← isWord "const") && (← lookToken) == .word "enum"

def ambient? (self : Self) (start : Nat) : Parse (Option Stmt) := do
  if (← context).ambient then record start .declareInAmbientCode
  inContext ({ · with ambient := true }) do
    match ← token with
    | .word "function" => some <$> functionDecl self start false
    | .word "class" => some <$> classDecl self start false
    | .word "var" => some <$> varStmt self start .varBinding
    | .word "let" => some <$> varStmt self start .letBinding
    | .word "const" =>
      if ← atConstEnum then some <$> constEnum self start
      else some <$> varStmt self start .constBinding
    | .word "global" =>
      ambientModule self
      some <$> typeDeclaration start
    | .word name => keyed? self start name true
    | _ => return none

def afterWord? (self : Self) (word : Ident) : Parse (Option Stmt) := do
  let start := word.span.lo
  match word.name with
  | "declare" => ambient? self start
  | "global" =>
    if ← isAt .braceL then
      namespaceBody self
      some <$> typeDeclaration start
    else return none
  | name => keyed? self start name false

end TypedDecl

def exprStmt (self : Self) : Parse Stmt := do
  let start ← here
  let expr ← allowingIn self.expr
  if let .ident id := expr then
    if ← eat .colon then return ← labeledStmt self id
    if id.name == "interface" && (← newlineBefore) then
      recordStrict id.span.lo (.reservedInStrict id.name)
      let _ ← eatSemicolon
      return .expr expr (← spanFrom start)
    if (← context).typed then
      if let some decl ← TypedDecl.afterWord? self id then return decl
  exprEnd self start expr

def reservedDecl? (self : Self) (name : String) : Parse (Option Stmt) := do
  unless (← context).typed do return none
  let start ← here
  let names := (← lookTokenOnLine).name?.isSome
  match name with
  | "interface" =>
    unless names do return none
    advance
    TypedDecl.interfaceRest self
    some <$> TypedDecl.typeDeclaration start
  | "enum" =>
    unless names do return none
    advance
    TypedDecl.enumRest self
    some <$> TypedDecl.typeDeclaration start
  | "const" =>
    unless ← TypedDecl.atConstEnum do return none
    some <$> TypedDecl.constEnum self start
  | _ => return none

def stmt (self : Self) (declarations : Bool) : Parse Stmt :=
  inContext ({ · with colonPending := false }) do
    let start ← here
    match ← token with
    | .punct .braceL => return .block (← block self false)
    | .punct .semi => advance; return .empty (← spanFrom start)
    | .word "import" => importStmt self
    | .word "export" => fail .importOutsideModule
    | .word "await" =>
      if declarations || (← context).topLevel then
        if let some stmt ← topLevelAwait? self then return stmt
      exprStmt self
    | .word name =>
      if let some decl ← reservedDecl? self name then return decl
      if let some stmt ← wordStmt? self declarations name then return stmt
      exprStmt self
    | _ =>
      expectToken
      exprStmt self

end Seepage.Script
