import Seepage.Script.Grammar.Pattern

set_option autoImplicit false

namespace Seepage.Script

open Parse

def statements (self : Self) : Parse (List Stmt) :=
  collect do
    if ← isAt .braceR then return none
    if ← isEnd then
      record (← here) (.expected "\x7d" "<eof>")
      return none
    return some (← self.stmt true)

def atUseStrict : Parse Bool := do
  match ← token with
  | .string _ =>
    let raw := (← get).lexeme.raw
    return raw == "\"use strict\"" || raw == "'use strict'"
  | _ => return false

def block (self : Self) (directives : Bool) : Parse Block := do
  let start ← here
  expect .braceL
  let strict ← if directives then atUseStrict else pure false
  let body ← inContext
    (fun context => { context with topLevel := false, strict := context.strict || strict })
    (statements self)
  let _ ← eat .braceR
  return .mk body (← spanFrom start)

structure FunctionMarks where
  isAsync : Bool := false
  isGenerator : Bool := false
  isArrow : Bool := false

def Context.enterBody (marks : FunctionMarks) (context : Context) : Context :=
  { context with
    inFunction := true
    inAsync := marks.isAsync
    inGenerator := marks.isGenerator
    inPlainFunction := context.inPlainFunction || !marks.isArrow
    inStaticBlock := false
    topLevel := false
    breakAllowed := false
    continueAllowed := false
    labels := [] }

def useStrict? : List Stmt → Option Nat
  | .expr (.literal (.string value) literal) span :: rest =>
    if value == "use strict" && literal.hi == literal.lo + 12 then some span.lo
    else useStrict? rest
  | _ => none

def Pattern.isIdent : Pattern → Bool
  | .ident _ => true
  | _ => false

def checkDirectives (params : List Pattern) : Block → Parse Unit
  | .mk body _ => do
    unless params.all Pattern.isIdent do
      if let some pos := useStrict? body then record pos .strictWithPatterns

def checkAmbientBody : Parse Unit := do
  let context ← context
  if context.typed && context.ambient && (← isAt .braceL) then
    record (← here) .bodyInAmbientCode

def functionBody (self : Self) (marks : FunctionMarks) (params : List Pattern) : Parse Body := do
  checkAmbientBody
  inContext (·.enterBody marks) do
    if (← context).typed && !(← isAt .braceL) then
      if ← eatSemicolon then return .absent
    let body ← allowingIn (block self true)
    checkDirectives params body
    return .block body

def arrowRest (self : Self) (start : Nat) (isAsync : Bool) (params : List Pattern) :
    Parse Expr := do
  checkAmbientBody
  let body ← inContext (·.enterBody { isAsync, isArrow := true }) do
    if ← isAt .braceL then
      let body ← block self false
      checkDirectives params body
      pure (Body.block body)
    else Body.expr <$> self.assign
  return .arrow (.mk (params.map Pattern.toParam) body (← spanFrom start))

def annotateParam (self : Self) (start : Nat) (pattern : Pattern) : Parse Pattern := do
  if ← TypeNotation.annotation? self then
    match pattern with
    | .ident _ => return pattern
    | _ => return pattern.withSpan (← spanFrom start)
  return pattern

def restParam (self : Self) (start : Nat) : Parse Pattern := do
  let typed := (← context).typed
  let target ← self.binding
  let inner ←
    if ← eat .assign then
      let value ← self.assign
      record target.span.lo .restParameterWithValue
      pure (Pattern.initialized target value (← spanFrom start))
    else pure target
  if typed then TypeNotation.annotation self
  let span ← spanFrom start
  if typed then
    let mark ← here
    if ← eat .question then record mark .optionalRest
  return .rest inner span

def formalParam (self : Self) : Parse Pattern := do
  let start ← here
  let context ← context
  let hasModifier ← eatPropertyModifier
  let targetStart ← here
  let target ← self.binding
  let isOptional ← if context.typed then eat .question else pure false
  let target ← if context.typed then annotateParam self targetStart target else pure target
  let pattern ←
    if ← eat .assign then
      if isOptional then record target.span.lo .optionalWithValue
      let value ← self.assign
      if context.ambient then record start .parameterValueInSignature
      pure (Pattern.initialized target value (← spanFrom start))
    else pure target
  if hasModifier then record start .parameterProperty
  return pattern

def Pattern.isRest : Pattern → Bool
  | .rest .. => true
  | _ => false

def paramList {α : Type} (pattern : α → Pattern) (param : Parse α) : Parse (List α) := do
  let found ← loop (β := List α) [] fun found => do
    if ← isAt .parenR then return .inr found
    if let some rest := (found.map pattern).find? Pattern.isRest then
      record rest.span.lo .restParameterNotLast
    let next ← param
    unless ← isAt .parenR do
      let comma ← here
      expect .comma
      if (pattern next).isRest && (← isAt .parenR) then record comma .commaAfterRest
    return .inl (next :: found)
  return found.reverse

def params (self : Self) : Parse (List Pattern) :=
  paramList id do
    let start ← here
    if ← eat .dots then restParam self start else formalParam self

def isThisParam : Pattern → Bool
  | .ident id => id.name == "this"
  | _ => false

def getterParams (self : Self) (pos : Nat) : Parse (List Pattern) := do
  let patterns ← params self
  if patterns.any (!isThisParam ·) then record pos .getterWithParameter
  return patterns

def setterParams (self : Self) (pos : Nat) : Parse (List Pattern) := do
  let patterns ← params self
  if (patterns.filter (!isThisParam ·)).length != 1 then record pos .setterParameterCount
  match patterns with
  | .rest _ span :: _ => record span.lo .restInSetter
  | _ => pure ()
  return patterns

def checkSignatureValue : Pattern → Parse Unit
  | .initialized _ _ span => record span.lo .parameterValueInSignature
  | _ => return

def functionRest (self : Self) (start : Nat) (marks : FunctionMarks)
    (readParams : Parse (List Pattern)) : Parse Function :=
  inContext ({ · with inAsync := marks.isAsync, inGenerator := marks.isGenerator }) do
    let typed := (← context).typed
    if typed then TypeNotation.optionalParams self TypeNotation.ofFunction
    expect .parenL
    let patterns ← inContext ({ · with inParameters := true, inFunction := false }) readParams
    expect .parenR
    if typed && (← isAt .colon) then TypeNotation.resultType self .colon
    let body ← functionBody self marks patterns
    if typed && body matches .absent then patterns.forM checkSignatureValue
    return .mk (patterns.map Pattern.toParam) body (← spanFrom start)

def Context.outsideMembers (context : Context) : Context :=
  { context with allowSuper := false, inClassField := false }

def functionExpr (self : Self) (start : Nat) (isAsync : Bool) : Parse Expr := do
  expectWord "function"
  let isGenerator ← eat .star
  inContext Context.outsideMembers do
    let name? ← inContext ({ · with inAsync := isAsync, inGenerator := isGenerator })
      (bindingName? true)
    let body ← inContext ({ · with colonPending := false })
      (functionRest self start { isAsync, isGenerator } (params self))
    if body matches .mk _ .absent _ then failUnexpected "\x7b"
    return .function name? body

def functionParts {α : Type} (self : Self) (start : Nat) (isAsync : Bool) (readName : Parse α) :
    Parse (α × FunctionMarks × Function) := do
  expectWord "function"
  let marks : FunctionMarks := { isAsync, isGenerator := ← eat .star }
  inContext Context.outsideMembers do
    let name ← readName
    let body ← inContext ({ · with colonPending := false })
      (functionRest self start marks (params self))
    return (name, marks, body)

def functionDecl (self : Self) (start : Nat) (isAsync : Bool) : Parse Stmt := do
  let (name, _, body) ← functionParts self start isAsync (bindingName true)
  return .function name.name body

end Seepage.Script
