import Seepage.Script.Grammar.Literal

set_option autoImplicit false

namespace Seepage.Script

open Parse

def Expr.isTarget : Expr → Bool
  | .typed form _ _ => form != .asConst
  | .ident _ | .member .. | .superMember .. | .paren .. | .missing _ => true
  | .call _ _ chained _ => chained
  | _ => false

def checkUpdated (target : Expr) : Parse Unit := do
  let context ← context
  let pos := target.span.lo
  unless target.isAssignable context.strict do
    record pos (if context.typed then .notAssignable else .notSimple)
  if context.typed then
    if let .ident id := target then
      if isEvalOrArguments id.name then recordStrict pos .useOfArguments

def finishAssign (self : Self) (start : Nat) (target : Expr) : Parse Expr := do
  match ← token with
  | .punct op =>
    if !op.isAssign then return target
    match op, target with
    | .assign, .array .. | .assign, .object .. =>
      let pattern ← self.asPattern .target target
      advance
      let value ← self.assign
      return .assignPattern pattern value (← spanFrom start)
    | _, _ =>
      if op == .assign then
        unless target matches .missing _ do checkTarget target true
      else checkUpdated target
      unless target.isTarget do failAt target.span .invalidTarget
      advance
      let value ← self.assign
      return .assign op.text target value (← spanFrom start)
  | _ => return target

def finishConditional (self : Self) (start : Nat) (test : Expr) : Parse Expr := do
  if ← eat .question then
    let consequent ← inContext
      ({ · with allowIn := true, inConditional := true, colonPending := true }) self.assign
    expect .colon
    let alternate ← inContext ({ · with inConditional := true, colonPending := false }) self.assign
    return .conditional test consequent alternate ⟨start, alternate.span.hi⟩
  return test

inductive ParenItem where
  | expr (value : Expr)
  | pattern (target : Pattern)

namespace ParenItem

def isPattern : ParenItem → Bool
  | .pattern _ => true
  | .expr _ => false

def isName : ParenItem → Bool
  | .expr (.ident _) | .expr (.spread (.ident _) _) | .pattern (.ident _)
  | .pattern (.expr (.ident _)) => true
  | _ => false

end ParenItem

mutual

def Pattern.names : Pattern → List Ident
  | .ident id => [id]
  | .array elements _ => patternNames elements
  | .object members _ => memberNames members
  | .rest inner _ => inner.names
  | .initialized target _ _ => target.names
  | .expr _ | .unsupported .. => []

def patternNames : List Pattern → List Ident
  | [] => []
  | pattern :: rest => pattern.names ++ patternNames rest

def memberNames : List PatternMember → List Ident
  | [] => []
  | .keyed _ value _ :: rest => value.names ++ memberNames rest
  | .shorthand id _ _ :: rest => id :: memberNames rest
  | .rest inner _ :: rest => inner.names ++ memberNames rest

end

def itemPatterns (self : Self) (lastComma? : Option Nat) : List ParenItem → Parse (List Pattern)
  | [] => return []
  | .expr (.spread inner span) :: rest => do
    unless rest.isEmpty do
      record span.lo .restNotLast
      return ← itemPatterns self lastComma? rest
    if inner.isAssignment then record span.lo .restParameterWithValue
    if let some comma := lastComma? then record comma .commaAfterRest
    return [.rest (← self.asPattern .binding inner) inner.span]
  | .pattern (.rest inner span) :: rest => do
    unless rest.isEmpty do
      record span.lo .restNotLast
      return ← itemPatterns self lastComma? rest
    if let some comma := lastComma? then record comma .commaAfterRest
    return [.rest inner span]
  | .pattern target :: rest => return target :: (← itemPatterns self lastComma? rest)
  | .expr value :: rest => do
    let pattern ← self.asPattern .binding value
    return pattern :: (← itemPatterns self lastComma? rest)

def itemParams (self : Self) (items : List ParenItem) (lastComma? : Option Nat) :
    Parse (List Pattern) := do
  let params ← itemPatterns self lastComma? items
  for id in patternNames params do
    if isEvalOrArguments id.name then recordStrict id.span.lo .bindingOfEval
  return params

def atOptionalMark : Parse Bool := do
  match ← lookToken with
  | .punct .comma | .punct .colon | .punct .parenR | .punct .assign => return true
  | _ => return false

def atName : Parse Bool := do
  if ← isAt .dots then return refers (← context) (← lookToken)
  atReference

def itemValue (self : Self) (start : Nat) : Parse Expr := do
  if (← context).typed && (← atName) then
    let operandStart ← here
    if ← eat .dots then
      let inner ← self.binary
      return .spread inner ⟨operandStart, inner.span.hi⟩
    finishAssign self start (← self.binary)
  else argument self

def annotatedItem (self : Self) (start : Nat) (value : Expr) : Parse Pattern := do
  let target ← match value with
    | .spread inner _ => pure (Pattern.rest (← self.asPattern .binding inner) (← spanFrom start))
    | other => self.asPattern .binding other
  let target ← match target with
    | .ident _ | .array .. | .object .. | .rest .. =>
      if ← TypeNotation.annotation? self then pure (target.withSpan (← spanFrom start))
      else pure target
    | other => pure other
  if ← eat .assign then
    let value ← self.assign
    return .initialized target value (← spanFrom start)
  return target

def optionalMark (value : Expr) : Parse Unit := do
  let mark ← here
  expect .question
  if value matches .spread .. then record mark .optionalRest
  match value with
  | .ident _ | .spread (.ident _) _ => return
  | other => failAt other.span .optionalPattern

def typedItem (self : Self) (start targetStart : Nat) (value : Expr) : Parse ParenItem := do
  if ← isAt .question then
    if ← atOptionalMark then
      optionalMark value
      return .pattern (← annotatedItem self targetStart value)
    let value ← if value matches .spread .. then pure value
      else finishConditional self start value
    if ← isAt .colon then return .pattern (← annotatedItem self targetStart value)
    return .expr value
  if ← isAt .colon then return .pattern (← annotatedItem self targetStart value)
  return .expr value

def parenItem (self : Self) : Parse ParenItem := do
  let start ← here
  modify ({ · with arrowStart? := some start })
  let hasModifier ← eatPropertyModifier
  let targetStart ← here
  let value ← itemValue self start
  let item ← if (← context).typed then typedItem self start targetStart value
    else pure (.expr value)
  if hasModifier then record start .parameterProperty
  return item

structure ParenItems where
  items : List ParenItem := []
  lastComma? : Option Nat := none

def lateArrow (self : Self) (start : Nat) (items : List ParenItem) : Parse (List ParenItem) := do
  if ← eat .arrow then
    if items.head?.any ParenItem.isName then
      let arrow ← arrowRest self start false (← itemParams self items none)
      return items ++ [.expr arrow]
  return items

def parenItems (self : Self) : Parse ParenItems := do
  expect .parenL
  let found ← loop (β := ParenItems) ({} : ParenItems) fun found => do
    if (← isEnd) || (← isAt .parenR) then return .inr found
    let start ← here
    let item ← parenItem self
    let items ← lateArrow self start (found.items ++ [item])
    if ← isAt .parenR then return .inl { found with items }
    let comma ← here
    expect .comma
    let lastComma? := if ← isAt .parenR then some comma else none
    return .inl { items, lastComma? }
  expect .parenR
  return found

def conditionalArrow? (self : Self) (start : Nat) (isAsync : Bool) (found : ParenItems) :
    Parse (Option Expr) := do
  let context ← context
  if context.typed && context.inConditional && (← isAt .colon) then
    attempt do
      TypeNotation.resultType self .colon
      expect .arrow
      let params ← itemParams self found.items found.lastComma?
      let arrow ← arrowRest self start isAsync params
      if context.colonPending && !(← isAt .colon) then failUnexpected "fail"
      return arrow
  else return none

def arrowResult (self : Self) : Parse Bool := do
  let context ← context
  if context.typed && !context.colonPending && (← isAt .colon) then
    let found ← attempt do
      TypeNotation.resultType self .colon
      unless ← isAt .arrow do failUnexpected "fail"
    return found.isSome
  return false

def atOperator : Parse Bool := do
  match ← token with
  | .punct op => return op.precedence?.isSome
  | _ => return false

def afterArrow (self : Self) (arrow : Expr) : Parse Expr := do
  match arrow with
  | .arrow (.mk _ (.block _) _) =>
    if ← atOperator then
      record (← here) .semicolonExpected
      let joined ← self.operators arrow 0
      unless ← atStatementEnd do record (← here) .semicolonExpected
      return joined
    return arrow
  | _ => return arrow

def recordInitialized : Expr → Parse Unit
  | .object members _ =>
    members.forM fun
      | .initialized _ _ span => record span.lo .initializedProperty
      | _ => pure ()
  | _ => pure ()

def ParenItem.checkOperand : ParenItem → Parse Unit
  | .expr (.spread inner _) | .expr inner => recordInitialized inner
  | .pattern _ => return

def ParenItem.toExpr : ParenItem → Parse Expr
  | .expr value => return value
  | .pattern target => failAt target.span .notAnExpression

def enclosed (start : Nat) : List Expr → Parse Expr
  | [] => failFrom start .emptyParens
  | first :: rest => do
    for expr in first :: rest do
      if let .spread inner _ := expr then failAt inner.span .spreadInParens
    match rest.getLast? with
    | none => return .paren first (← spanFrom start)
    | some last =>
      return .paren (.sequence (first :: rest) ⟨first.span.lo, last.span.hi⟩) (← spanFrom start)

def parenthesized (self : Self) (canBeArrow : Bool) (async? : Option Ident) : Parse Expr := do
  let start := (async?.map (·.span.lo)).getD (← here)
  let found ← inContext Context.bracketed (parenItems self)
  if let some arrow ← conditionalArrow? self start async?.isSome found then return arrow
  let hasResult ← arrowResult self
  if found.items.any ParenItem.isPattern || hasResult || (← isAt .arrow) then
    if ← newlineBefore then failFrom start .breakBeforeArrow
    unless canBeArrow do failFrom start .arrowNotAllowed
    expect .arrow
    let params ← itemParams self found.items found.lastComma?
    afterArrow self (← arrowRest self start async?.isSome params)
  else
    found.items.forM ParenItem.checkOperand
    let exprs ← found.items.mapM ParenItem.toExpr
    match async? with
    | some name => return .call (.ident name) exprs false (← spanFrom start)
    | none => enclosed start exprs

end Seepage.Script
