import Seepage.Script.Grammar.Expression

set_option autoImplicit false

namespace Seepage.Script

open Parse

def Declarator.target : Declarator → Pattern
  | .mk target _ _ => target

def Declarator.value? : Declarator → Option Expr
  | .mk _ value _ => value

structure ReadDeclarator where
  declarator : Declarator
  isTyped : Bool

def checkUninitialized (kind : VarKind) (start : Nat) (target : Pattern) : Parse Unit := do
  let context ← context
  if context.ambient then return
  if kind == .constBinding && context.strict then
    recordStrict start .constWithoutValue
  else unless target.isIdent do failFrom start .patternWithoutValue

def declarator (self : Self) (kind : VarKind) (inFor : Bool) : Parse ReadDeclarator := do
  let start ← here
  let target ← if kind == .varBinding then self.binding else self.bindingWithoutLet
  let typed := (← context).typed
  if typed && target.isIdent then
    let _ ← eat .bang
  let isTyped ← if typed then TypeNotation.annotation? self else pure false
  if inFor && ((← isWord "in") || (← isWord "of")) then
    return ⟨.mk target none (← spanFrom start), isTyped⟩
  if ← eat .assign then
    let value ← self.assign
    return ⟨.mk target (some value) (← spanFrom start), isTyped⟩
  checkUninitialized kind start target
  return ⟨.mk target none (← spanFrom start), isTyped⟩

def declarators (self : Self) (kind : VarKind) (inFor : Bool) (keyword : Span) :
    Parse (List ReadDeclarator) := do
  let found ← loop (β := List ReadDeclarator) [] fun found => do
    let comma ← here
    unless found.isEmpty do
      unless ← eat .comma do return .inr found
    if (← isAt .semi) || (← isEnd) then
      record (if found.isEmpty then keyword.hi else comma) .trailingComma
      return .inr found
    return .inl ((← declarator self kind inFor) :: found)
  return found.reverse

def skipToEnd (self : Self) : Parse Unit := do
  record (← here) .semicolonExpected
  let _ ← caught self.expr
  loop () fun _ => do
    if ← eatSemicolon then return .inr ()
    advance
    if (← token) matches .invalid _ then return .inr ()
    return .inl ()

def varStmt (self : Self) (start : Nat) (kind : VarKind) : Parse Stmt := do
  let keyword := (← get).lexeme.span
  advance
  let found ← allowingIn (declarators self kind false keyword)
  unless ← eatSemicolon do skipToEnd self
  return .vars kind (found.map ReadDeclarator.declarator) (← spanFrom start)

def usingStmt (self : Self) (start : Nat) : Parse Stmt := do
  let keyword := (← get).lexeme.span
  advance
  let found ← declarators self .varBinding false keyword
  unless (← context).typed do record start .usingNotEnabled
  for read in found do
    unless read.declarator.target.isIdent do record start .usingOfPattern
    unless read.declarator.value?.isSome do record start .usingWithoutValue
  expectSemicolon
  return .vars .constBinding (found.map ReadDeclarator.declarator) (← spanFrom start)

def parenExpr (self : Self) : Parse Expr := do
  expect .parenL
  let expr ← allowingIn self.expr
  expect .parenR
  return expr

def Context.inLoop (context : Context) : Context :=
  { context with breakAllowed := true, continueAllowed := true, topLevel := false }

def ifStmt (self : Self) : Parse Stmt := do
  let start ← here
  advance
  let test ← parenExpr self
  let consequent ← self.stmt false
  if ← eatWord "else" then
    let alternate ← self.stmt false
    return .ifElse test consequent alternate (← spanFrom start)
  return .ifThen test consequent (← spanFrom start)

def whileStmt (self : Self) : Parse Stmt := do
  let start ← here
  advance
  let test ← parenExpr self
  let body ← inContext Context.inLoop (self.stmt false)
  return .whileStmt test body (← spanFrom start)

def doWhileStmt (self : Self) : Parse Stmt := do
  let start ← here
  advance
  let body ← inContext Context.inLoop (self.stmt false)
  expectWord "while"
  let test ← parenExpr self
  let _ ← eatSemicolon
  return .doWhile body test (← spanFrom start)

def letDeclares : Parse Bool := do
  match ← lookToken with
  | .word name => return !keywords.contains name
  | .escapedName _ | .punct .bracketL | .punct .braceL => return true
  | _ => return false

def usingDeclares : Parse Bool := do
  return refers (← context) (← lookTokenOnLine)

def varKind? : Parse (Option VarKind) := do
  match ← token with
  | .word "var" => return some .varBinding
  | .word "const" => return some .constBinding
  | .word "let" => return if ← letDeclares then some .letBinding else none
  | _ => return none

inductive LoopHead where
  | counting (init : Option ForHead) (test update : Option Expr)
  | overKeys (head : ForHead) (object : Expr)
  | overValues (head : ForHead) (object : Expr)

def countingHead (self : Self) (init : Option ForHead) : Parse LoopHead := do
  let test? ←
    if ← eat .semi then pure none
    else
      let test ← allowingIn self.expr
      let _ ← eat .semi
      pure (some test)
  let update? ← if ← isAt .parenR then pure none else some <$> allowingIn self.expr
  return .counting init test? update?

def atIteration : Parse Bool := do
  return (← token) == .word "of" || (← token) == .word "in"

def iteratingHead (self : Self) (head : ForHead) : Parse LoopHead := do
  let overValues ← isWord "of"
  advance
  if overValues then return .overValues head (← allowingIn self.assign)
  return .overKeys head (← allowingIn self.expr)

def checkIterated : List ReadDeclarator → Parse Unit
  | [] => return
  | [only] => do
    let pos := only.declarator.target.span.lo
    let overValues ← isWord "of"
    if ((← context).strict || overValues) && only.declarator.value?.isSome then
      record pos .initializerInForHead
    if only.isTyped then record pos .annotationInForHead
  | _ :: rest => rest.forM fun read => record read.declarator.target.span.lo .tooManyInForHead

def lacksVariable (self : Self) : Parse Bool := do
  if (← context).typed && (← atIteration) then
    let found ← look do
      advance
      let _ ← self.assign
      expect .parenR
    return found.isSome
  return false

def varHead (self : Self) (start : Nat) (kind : VarKind) : Parse LoopHead := do
  let keyword := (← get).lexeme.span
  advance
  if ← lacksVariable self then
    record keyword.hi .emptyDeclarations
    return ← iteratingHead self (.vars kind [] (← spanFrom start))
  let read := declarators self kind true keyword
  let found ← if kind == .varBinding then read else allowingIn read
  let head : ForHead :=
    .vars kind (found.map ReadDeclarator.declarator) (← spanFrom start)
  if ← atIteration then
    checkIterated found
    iteratingHead self head
  else
    expect .semi
    countingHead self (some head)

def declaresResource : Expr → Parse Bool
  | .ident id | .await (.ident id) _ => do
    if (← context).typed && id.name == "using" && !(← isWord "of") then
      let next ← lookToken
      return next == .word "of" || next == .word "in"
    return false
  | _ => return false

def resourceHead (self : Self) (start : Nat) : Parse LoopHead := do
  let name ← bindingName true
  let span ← spanFrom start
  if ← isWord "in" then record start .usingInForIn
  iteratingHead self (.vars .constBinding [.mk (.ident name) none span] span)

def loopHead (self : Self) : Parse LoopHead := do
  let start ← here
  if let some kind ← varKind? then
    return ← varHead self start kind
  if ← eat .semi then return ← countingHead self none
  let value ← inContext ({ · with allowIn := false }) self.expr
  if ← declaresResource value then return ← resourceHead self start
  if ← atIteration then
    let target ← self.asPattern .target value
    if (← context).typed && (← isWord "in") then
      match target with
      | .ident _ | .expr _ => pure ()
      | other => record other.span.lo .patternInForHead
    return ← iteratingHead self (.pattern target)
  expect .semi
  countingHead self (some (.expr value))

def forStmt (self : Self) : Parse Stmt := do
  let start ← here
  advance
  let awaitSpan := (← get).lexeme.span
  let isAwait ← eatWord "await"
  expect .parenL
  let head ← inContext ({ · with forHead := true, forAwaitHead := isAwait }) (loopHead self)
  expect .parenR
  let body ← inContext Context.inLoop (self.stmt false)
  let span ← spanFrom start
  match head with
  | .overValues head object => return .forOf head object body span
  | .overKeys head object =>
    if isAwait then failAt awaitSpan .awaitWithoutOf
    return .forIn head object body span
  | .counting init test update =>
    if isAwait then failAt awaitSpan .awaitWithoutOf
    return .forStmt init test update body span

def returnStmt (self : Self) : Parse Stmt := do
  let start ← here
  let result ← caught do
    advance
    let argument ← if ← atStatementEnd then pure none else some <$> allowingIn self.expr
    expectSemicolon
    return .returnStmt argument (← spanFrom start)
  unless (← context).inFunction do record start .returnOutside
  match result with
  | .ok stmt => return stmt
  | .error failure => throw failure

def throwStmt (self : Self) : Parse Stmt := do
  let start ← here
  advance
  if ← newlineBefore then fail .breakAfterThrow
  let argument ← allowingIn self.expr
  expectSemicolon
  return .throwStmt argument (← spanFrom start)

def jumpLabel : Parse (Option String) := do
  if ← eatSemicolon then return none
  let label ← identifier
  expectSemicolon
  return some label.name

def breakStmt : Parse Stmt := do
  let start ← here
  advance
  let label ← jumpLabel
  let context ← context
  if label.any fun name => !context.labels.contains name then record start .breakUnknownLabel
  else if !context.breakAllowed then record start .breakOutside
  return .breakStmt label (← spanFrom start)

def continueStmt : Parse Stmt := do
  let start ← here
  advance
  let label ← jumpLabel
  let context ← context
  if !context.continueAllowed then record start .continueOutside
  else if label.any fun name => !context.labels.contains name then
    record start .continueUnknownLabel
  return .continueStmt label (← spanFrom start)

def atCaseEnd : Parse Bool := do
  match ← token with
  | .eof | .word "case" | .word "default" | .punct .braceR => return true
  | _ => return false

def switchCase (self : Self) (seenDefault : Bool) : Parse SwitchCase := do
  let start ← here
  let test ←
    if ← eatWord "case" then some <$> allowingIn self.expr
    else
      advance
      if seenDefault then fail .duplicateDefault
      pure none
  expect .colon
  let body ← inContext ({ · with topLevel := false }) <| collect do
    if ← atCaseEnd then return none
    return some (← self.stmt true)
  return .mk test body (← spanFrom start)

def SwitchCase.isDefault : SwitchCase → Bool
  | .mk test _ _ => test.isNone

def switchStmt (self : Self) : Parse Stmt := do
  let start ← here
  advance
  let subject ← parenExpr self
  expect .braceL
  let cases ← inContext ({ · with breakAllowed := true }) <|
    loop (β := List SwitchCase) [] fun cases => do
      if (← isWord "case") || (← isWord "default") then
        let case ← switchCase self (cases.any SwitchCase.isDefault)
        return .inl (case :: cases)
      return .inr cases
  expect .braceR
  return .switchStmt subject cases.reverse (← spanFrom start)

def handler (self : Self) : Parse Handler := do
  let start ← here
  if ← eatWord "catch" then
    if ← eat .parenL then
      let param ← self.binding
      if (← context).typed then TypeNotation.annotation self
      expect .parenR
      let body ← block self false
      return .binding param body (← spanFrom start)
    let body ← block self false
    return .bare body (← spanFrom start)
  return .absent

def finalizer? (self : Self) : Parse (Option Block) := do
  if ← eatWord "finally" then some <$> block self false else return none

def tryStmt (self : Self) : Parse Stmt := do
  let start ← here
  advance
  let body ← block self false
  let afterBody ← here
  let handler ← handler self
  let finalizer ← finalizer? self
  match handler, finalizer with
  | .absent, none => record afterBody .semicolonExpected
  | _, _ => pure ()
  return .tryStmt body handler finalizer (← spanFrom start)

def strayHandler (self : Self) : Parse Stmt := do
  let span := (← get).lexeme.span
  record span.lo .semicolonExpected
  let _ ← caught (handler self)
  let _ ← caught (finalizer? self)
  return .expr (.missing span) span

def withStmt (self : Self) : Parse Stmt := do
  let start ← here
  if (← context).typed then record start .withInTypedCode
  recordStrict start .withInStrict
  advance
  let object ← parenExpr self
  let body ← inContext ({ · with inFunction := true }) (self.stmt false)
  return .withStmt object body (← spanFrom start)

def labelledFunction (self : Self) : Parse Stmt := do
  let start ← here
  let (name, marks, body) ← functionParts self start false (bindingName true)
  if (← context).strict then record start .labelledFunction
  if marks.isGenerator then record start .labelledGenerator
  return .function name.name body

def labeledStmt (self : Self) (label : Ident) : Parse Stmt := do
  let outer := (← context).labels
  let body ← inContext
      ({ · with labels := label.name :: outer, breakAllowed := true }) do
    if ← isWord "function" then labelledFunction self else self.stmt false
  for name in outer do
    if name == label.name then record label.span.lo (.duplicateLabel label.name)
  return .labeled label.name body (← spanFrom label.span.lo)

def exprEnd (self : Self) (start : Nat) (expr : Expr) : Parse Stmt := do
  if ← eatSemicolon then return .expr expr (← spanFrom start)
  if ← atOperator then
    record (← here) .semicolonExpected
    let joined ← self.operators expr 0
    return .expr joined (← spanFrom start)
  fail .statementEndExpected

def recordDeclaration (declarations : Bool) : Parse Unit := do
  unless declarations do record (← here) .declarationNotAllowed

def classDecl (self : Self) (start : Nat) (isAbstract : Bool) : Parse Stmt := do
  let parts ← classParts self start isAbstract (some <$> bindingName false)
  return .classDecl (parts.name?.map Ident.name) parts.parent? parts.members parts.span

def wordStmt? (self : Self) (declarations : Bool) (name : String) : Parse (Option Stmt) := do
  let start ← here
  match name with
  | "var" => some <$> varStmt self start .varBinding
  | "const" => if declarations then some <$> varStmt self start .constBinding else return none
  | "let" =>
    if declarations && (← letDeclares) then some <$> varStmt self start .letBinding
    else return none
  | "using" =>
    if declarations && (← usingDeclares) then some <$> usingStmt self start else return none
  | "if" => some <$> ifStmt self
  | "for" => some <$> forStmt self
  | "while" => some <$> whileStmt self
  | "do" => some <$> doWhileStmt self
  | "return" => some <$> returnStmt self
  | "throw" => some <$> throwStmt self
  | "break" => some <$> breakStmt
  | "continue" => some <$> continueStmt
  | "switch" => some <$> switchStmt self
  | "try" => some <$> tryStmt self
  | "catch" | "finally" => some <$> strayHandler self
  | "with" => some <$> withStmt self
  | "debugger" =>
    advance
    expectSemicolon
    return some (.empty (← spanFrom start))
  | "function" =>
    recordDeclaration declarations
    some <$> functionDecl self start false
  | "class" =>
    recordDeclaration declarations
    some <$> classDecl self start false
  | "async" =>
    if (← lookTokenOnLine) == .word "function" then
      advance
      some <$> functionDecl self start true
    else return none
  | _ => return none

def importStmt (self : Self) : Parse Stmt := do
  let start ← here
  match ← lookToken with
  | .punct .parenL | .punct .dot =>
    let expr ← self.expr
    let _ ← eatSemicolon
    return .expr expr (← spanFrom start)
  | _ => fail .importOutsideModule

def topLevelAwait? (self : Self) : Parse (Option Stmt) := do
  let start ← here
  let context ← context
  if context.topLevel && !context.moduleGoal then record start .awaitOutsideModule
  if (← lookToken) == .word "using" then
    let declares ← look (do advance; usingDeclares)
    if declares.getD false then
      advance
      return some (← usingStmt self start)
  return none

end Seepage.Script
