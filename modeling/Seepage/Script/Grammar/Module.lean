import Seepage.Script.Grammar.Declaration

set_option autoImplicit false

namespace Seepage.Script

open Parse

def sourceString : Parse String := do
  match ← token with
  | .string value => advance; return value
  | _ => failUnexpected "a string literal"

def attributes (self : Self) : Parse Unit := do
  if (← context).typed && !(← newlineBefore) then
    if (← isWord "with") || (← isWord "assert") then
      advance
      let _ ← self.object

def fromClause (self : Self) : Parse String := do
  expectWord "from"
  let source ← sourceString
  attributes self
  let _ ← eatSemicolon
  return source

inductive OuterName where
  | word (id : Ident)
  | string (value : String) (span : Span)

def outerName : Parse OuterName := do
  let lexeme := (← get).lexeme
  match lexeme.token with
  | .string value => advance; return .string value lexeme.span
  | .word _ | .escapedName _ => return .word (← anyName)
  | _ => failUnexpected "identifier or string"

def importedBinding : Parse Ident :=
  inContext ({ · with inAsync := false, inGenerator := false }) (bindingName true)

structure Renaming where
  outer : OuterName
  inner : Ident
  isType : Bool

def typeAs (first second : Ident) (readName : Parse Ident) : Parse Renaming := do
  unless ← atWord do return ⟨.word second, second, true⟩
  let third ← readName
  if third.name == "as" && (← atWord) then
    return ⟨.word second, ← readName, true⟩
  return ⟨.word first, third, false⟩

def renamed (outer : OuterName) (isType : Bool) (readName : Parse Ident)
    (unnamed : OuterName → Parse Ident) : Parse Renaming := do
  if ← eatWord "as" then return ⟨outer, ← readName, isType⟩
  return ⟨outer, ← unnamed outer, isType⟩

def specifier (inTypes : Cause) (typesOnly : Bool) (readName : Parse Ident)
    (unnamed : OuterName → Parse Ident) : Parse Renaming := do
  let first ← outerName
  match first with
  | .word id =>
    if (← context).typed && id.name == "type" && (← atWord) then
      let second ← anyName
      let doubled := if typesOnly then record id.span.lo inTypes else pure ()
      if second.name == "as" then
        let change ← typeAs id second readName
        if change.isType then doubled
        return change
      doubled
      return ← renamed (.word second) true readName unnamed
    renamed first false readName unnamed
  | .string .. => renamed first false readName unnamed

def importedName : OuterName → Parse Ident
  | .word id => do
    if (← context).isReserved id.name then failAt id.span .importOfReserved
    return id
  | .string value span => failAt span (.importOfString value)

def bracedSpecifiers {α : Type} (specifier : Parse α) : Parse (List α) := do
  expect .braceL
  let found ← collect do
    if ← isAt .braceR then return none
    let found ← specifier
    unless ← isAt .braceR do expect .comma
    return some found
  expect .braceR
  return found

def importSpecifiers (typesOnly : Bool) (phase? : Option String) : Parse (List Ident) := do
  match ← token with
  | .punct .star =>
    if phase? == some "source" then return []
    advance
    expectWord "as"
    return [← importedBinding]
  | .punct .braceL =>
    if phase?.isSome then return []
    let found ← bracedSpecifiers
      (specifier .typeOnTypeImport typesOnly (bindingName true) importedName)
    return found.map Renaming.inner
  | _ => return []

def moduleDeclaration (start : Nat) : Parse Stmt := do
  return .unsupported "module declaration" (← spanFrom start)

def importEquals (start : Nat) : Parse Stmt := do
  expect .assign
  if (← isWord "require") && (← lookToken) == .punct .parenL then
    advance
    advance
    expectToken
    let _ ← sourceString
    expect .parenR
  else TypeNotation.qualifiedName
  expectSemicolon
  moduleDeclaration start

structure ImportHead where
  typesOnly : Bool := false
  phase? : Option String := none
  default? : Option Ident := none

def atListOrAll : Parse Bool := do
  return (← isAt .braceL) || (← isAt .star)

def typeMarked (name : Ident) : Parse ImportHead := do
  if (← context).typed && name.name == "type" then
    if ← atListOrAll then return { typesOnly := true }
    if ← atReference then
      let next ← lookToken
      if !(← isWord "from") || next == .word "from" then
        return { typesOnly := true, default? := some (← importedBinding) }
      if next == .punct .assign then
        return { typesOnly := true, default? := some (← anyName) }
  return { default? := some name }

def phaseMarked (head : ImportHead) (name : Ident) : Parse ImportHead := do
  if name.name == "source" || name.name == "defer" then
    let phase? := some name.name
    if ← atListOrAll then return { head with phase?, default? := none }
    let followed ← if ← isWord "from" then pure false else atReference
    if followed || (← lookToken) == .word "from" then
      return { head with phase?, default? := some (← importedBinding) }
  return head

def Context.ofImport (context : Context) : Context :=
  { context with moduleGoal := true, strict := true }

def importDecl (self : Self) : Parse Stmt := do
  let start ← here
  modify fun state => { state with context := state.context.ofImport }
  advance
  if let .string source ← token then
    advance
    attributes self
    let _ ← eatSemicolon
    return .importDecl source [] (← spanFrom start)
  let head ← if ← atReference then typeMarked (← importedBinding) else pure {}
  if (← context).typed && head.default?.isSome && (← isAt .assign) then
    return ← importEquals start
  let head ← match head.default? with
    | some name => phaseMarked head name
    | none => pure head
  if head.default?.isSome then
    unless ← isWord "from" do expect .comma
  let others ← importSpecifiers head.typesOnly head.phase?
  let source ← fromClause self
  return .importDecl source (head.default?.toList ++ others) (← spanFrom start)

def defaultFunction (self : Self) (start : Nat) (isAsync : Bool) : Parse Stmt := do
  let functionStart ← here
  if isAsync then advance
  let (name?, _, body) ← functionParts self functionStart isAsync (bindingName? true)
  match name? with
  | some name => return .function name.name body
  | none => return .exportDefault (.function none body) (← spanFrom start)

def defaultClass (self : Self) (isAbstract : Bool) : Parse Stmt := do
  let start ← here
  if isAbstract then advance
  let parts ← classParts self start isAbstract (bindingName? false)
  return .classDecl (parts.name?.map Ident.name) parts.parent? parts.members parts.span

def defaultInterface? (self : Self) : Parse (Option Stmt) := do
  if (← isWord "abstract") && (← lookToken) == .word "interface" then
    record (← here) .abstractNotHere
    advance
  if ← isWord "interface" then
    let start ← here
    advance
    TypedDecl.interfaceRest self
    return some (.unsupported "interface" (← spanFrom start))
  return none

def exportDefault (self : Self) (start : Nat) : Parse Stmt := do
  if (← context).typed then
    if (← isWord "abstract") && (← lookTokenOnLine) == .word "class" then
      return ← defaultClass self true
    if let some stmt ← defaultInterface? self then return stmt
  match ← token, ← lookTokenOnLine with
  | .word "class", _ => defaultClass self false
  | .word "async", .word "function" => defaultFunction self start true
  | .word "function", _ => defaultFunction self start false
  | _, _ =>
    let value ← allowingIn self.assign
    expectSemicolon
    return .exportDefault value (← spanFrom start)

def isUnexportable (name : String) : Bool :=
  keywords.contains name || name == "enum" || name == "package"

def checkExported (change : Renaming) : Parse Unit :=
  match change.outer with
  | .word id => do
    if isUnexportable id.name then record id.span.lo (.exportOfReserved id.name)
  | .string _ span => record span.lo .exportOfString

def sameName : OuterName → Parse Ident
  | .word id => return id
  | .string value span => return ⟨value, span⟩

def outerIdent : Parse Ident := do
  sameName (← outerName)

def exportList (self : Self) (start : Nat) (typesOnly : Bool) : Parse Stmt := do
  if ← eat .star then
    if ← eatWord "as" then
      let _ ← outerName
    let _ ← fromClause self
    return ← moduleDeclaration start
  let found ← bracedSpecifiers (specifier .typeOnTypeExport typesOnly outerIdent sameName)
  if ← isWord "from" then
    let _ ← fromClause self
  else
    found.forM checkExported
    let _ ← eatSemicolon
  moduleDeclaration start

def exportedDecl? (self : Self) : Parse (Option Stmt) := do
  let start ← here
  match ← token with
  | .word "class" => some <$> classDecl self start false
  | .word "async" =>
    if (← lookTokenOnLine) == .word "function" then
      advance
      some <$> functionDecl self start true
    else return none
  | .word "function" => some <$> functionDecl self start false
  | .word "const" =>
    if (← context).typed && (← TypedDecl.atConstEnum) then some <$> TypedDecl.constEnum self start
    else some <$> varStmt self start .constBinding
  | .word "var" => some <$> varStmt self start .varBinding
  | .word "let" =>
    if ← letDeclares then some <$> varStmt self start .letBinding else return none
  | _ => return none

def typedExport? (self : Self) (start : Nat) : Parse (Option Stmt) := do
  let declStart ← here
  if ← eatWord "declare" then
    if let some decl ← TypedDecl.ambient? self declStart then return some decl
  if let .word name ← token then
    let declStart ← here
    let decl? ← attempt do
      match ← TypedDecl.keyed? self declStart name true with
      | some decl => return decl
      | none => fail .expressionExpected
    if let some decl := decl? then return some decl
  if ← eatWord "import" then
    if (← isWord "type") && (← lookToken).name?.isSome then advance
    let _ ← anyName
    return some (← importEquals start)
  if ← eat .assign then
    let _ ← self.expr
    expectSemicolon
    return some (← moduleDeclaration start)
  if ← eatWord "as" then
    expectWord "namespace"
    let _ ← identifier
    expectSemicolon
    return some (← moduleDeclaration start)
  return none

def exportDecl (self : Self) : Parse Stmt := do
  let start ← here
  advance
  expectMore
  let typed := (← context).typed
  if typed then
    if let some stmt ← typedExport? self start then return stmt
  let typesOnly ← if typed then eatWord "type" else pure false
  unless typesOnly do
    if ← eatWord "default" then return ← exportDefault self start
    if let some decl ← exportedDecl? self then return decl
  exportList self start typesOnly

def item (self : Self) : Parse Stmt := do
  match ← token with
  | .word "import" =>
    match ← lookToken with
    | .punct .parenL | .punct .dot => importStmt self
    | _ => importDecl self
  | .word "export" => exportDecl self
  | _ => self.stmt true

end Seepage.Script
