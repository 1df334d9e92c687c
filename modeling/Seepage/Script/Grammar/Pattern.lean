import Seepage.Script.Grammar.TypeNotation

set_option autoImplicit false

namespace Seepage.Script

open Parse

def computedKey (self : Self) : Parse Key := do
  expect .bracketL
  let start ← here
  let first ← allowingIn self.assign
  let rest ← if (← context).typed then
      collect do
        if ← eat .comma then return some (← allowingIn self.assign)
        return none
    else pure []
  let key ← if rest.isEmpty then pure first else do
    record start .commaInKey
    pure (Expr.sequence (first :: rest) (← spanFrom start))
  expect .bracketR
  return .computed key

def propertyKey (self : Self) : Parse (Key × Option Ident) := do
  let lexeme := (← get).lexeme
  match lexeme.token with
  | .string value => advance; return (.named value, none)
  | .number text | .bigInt text => advance; return (.named text, none)
  | .word name | .escapedName name => advance; return (.named name, some ⟨name, lexeme.span⟩)
  | .punct .bracketL => return (← computedKey self, none)
  | .eof => failEnd
  | _ => failUnexpected "identifier, string literal, numeric literal or [ for the computed key"

def bindingElement (self : Self) : Parse Pattern := do
  let start ← here
  let target ← self.binding
  if ← eat .assign then
    let value ← allowingIn self.assign
    if (← context).ambient then record start .parameterValueInSignature
    return .initialized target value (← spanFrom start)
  return target

def eatAmbientMark : Parse Unit := do
  if (← context).ambient then
    let _ ← eat .question

structure ArrayBinding where
  elements : List Pattern := []
  rest? : Option Nat := none

def arrayElement (self : Self) (found : ArrayBinding) : Parse ArrayBinding := do
  if let some rest := found.rest? then record rest .restNotLast
  let start ← here
  let isRest ← eat .dots
  let element ← if isRest then
      let inner ← self.binding
      pure (Pattern.rest inner (← spanFrom start))
    else bindingElement self
  unless ← isAt .bracketR do
    let comma ← here
    expect .comma
    if isRest && (← isAt .bracketR) then record comma .commaAfterRest
  return ⟨element :: found.elements, if isRest then some start else found.rest?⟩

def arrayBinding (self : Self) : Parse Pattern := do
  let start ← here
  expect .bracketL
  let found ← loop (β := ArrayBinding) ({} : ArrayBinding) fun found => do
    if (← isEnd) || (← isAt .bracketR) then return .inr found
    if ← eat .comma then return .inl found
    return .inl (← arrayElement self found)
  expect .bracketR
  eatAmbientMark
  return .array found.elements.reverse (← spanFrom start)

def memberBinding (self : Self) : Parse PatternMember := do
  let start ← here
  if ← eat .dots then
    let inner ← self.binding
    return .rest inner (← spanFrom start)
  let (key, name?) ← propertyKey self
  if ← eat .colon then
    let value ← bindingElement self
    return .keyed key value (← spanFrom start)
  match name? with
  | none => failUnexpected "an identifier"
  | some id =>
    if ← eat .assign then
      let value ← allowingIn self.assign
      return .shorthand id (some value) (← spanFrom start)
    if (← context).isReserved id.name then record id.span.lo .reservedShorthand
    return .shorthand id none (← spanFrom start)

def checkRest (lastComma? : Option Nat) : List PatternMember → Parse Unit
  | [] => return
  | [.rest inner span] => do
    match inner, lastComma? with
    | .ident _, some comma => record comma .commaAfterRest
    | .ident _, none => return
    | _, _ => failAt span .restWithoutName
  | [_] => return
  | .rest _ span :: rest => do
    record span.lo .restNotLast
    checkRest lastComma? rest
  | _ :: rest => checkRest lastComma? rest

def bracedItems {α : Type} (item : Parse α) : Parse (List α × Option Nat) :=
  inContext ({ · with colonPending := false }) do
    expect .braceL
    let (items, lastComma?) ← loop (β := List α × Option Nat) ([], none)
      fun (items, lastComma?) => do
        if ← isAt .braceR then return .inr (items, lastComma?)
        let items := (← item) :: items
        if ← isAt .braceR then return .inl (items, none)
        let comma ← here
        expect .comma
        return .inl (items, some comma)
    expect .braceR
    return (items.reverse, lastComma?)

def objectBinding (self : Self) : Parse Pattern := do
  let start ← here
  let (members, lastComma?) ← bracedItems (memberBinding self)
  let span ← spanFrom start
  checkRest lastComma? members
  eatAmbientMark
  return .object members span

def binding (self : Self) (letAllowed : Bool) : Parse Pattern := do
  expectToken
  match ← token with
  | .word _ | .escapedName _ => return .ident (← bindingName letAllowed)
  | .punct .bracketL => arrayBinding self
  | .punct .braceL => objectBinding self
  | _ => failUnexpected "yield, an identifier, [ or \x7b"

def Expr.isAssignable (strict : Bool) : Expr → Bool
  | .ident id => !(strict && isEvalOrArguments id.name)
  | .member _ _ chained _ => !chained
  | .superMember .. => true
  | .typed .asConst _ _ => false
  | .paren inner _ | .typed _ inner _ => inner.isAssignable strict
  | _ => false

def Expr.deniesAssign (denyCall : Bool) : Expr → Bool
  | .literal .. | .binary .. => false
  | .call _ _ false _ => denyCall
  | .paren inner _ => inner.deniesAssign denyCall
  | _ => true

def checkTarget (target : Expr) (denyCall : Bool) : Parse Unit := do
  let context ← context
  let pos := target.span.lo
  let assignable := target.isAssignable context.strict
  unless assignable do record pos .notAssignable
  if context.typed then
    match target with
    | .ident id => if isEvalOrArguments id.name then recordStrict pos .useOfArguments
    | _ =>
      if !assignable && target.deniesAssign denyCall then record pos .notAssignable

def ObjectMember.span : ObjectMember → Span
  | .shorthand id => id.span
  | .keyed _ _ span | .initialized _ _ span | .method _ _ _ span | .spread _ span => span

def lastComma? (literal : Nat) : Parse (Option Nat) := do
  return (← get).lastCommas.lookup literal

def invalidPattern (span : Span) : Parse Pattern := do
  record span.lo .invalidPattern
  return .unsupported "invalid pattern" span

def restMember (self : Self) (use : PatternUse) (comma? : Option Nat) (isLast : Bool)
    (value : Expr) (span : Span) : Parse PatternMember := do
  if !isLast then record span.lo .restNotLast
  else if let some comma := comma? then record comma .commaAfterRest
  let inner ← match use, value with
    | .binding, .ident id => pure (Pattern.ident id)
    | .binding, _ =>
      record span.lo .restWithoutName
      pure (.unsupported "invalid pattern" span)
    | _, _ => self.asPattern use.inner value
  if inner matches .initialized .. then record span.lo .restParameterWithValue
  return .rest inner span

def membersPattern (self : Self) (use : PatternUse) (comma? : Option Nat) :
    List ObjectMember → Parse (List PatternMember)
  | [] => return []
  | member :: rest => do
    let pattern ← match member with
      | .shorthand id => pure (PatternMember.shorthand id none id.span)
      | .initialized id value span => pure (.shorthand id (some value) span)
      | .keyed key value span => pure (.keyed key (← self.asPattern use.inner value) span)
      | .spread value span => restMember self use comma? rest.isEmpty value span
      | .method _ _ _ span => failAt span .invalidPattern
    return pattern :: (← membersPattern self use comma? rest)

def Expr.isHole : Expr → Bool
  | .hole _ => true
  | _ => false

def Expr.isAssignment : Expr → Bool
  | .assign .. | .assignPattern .. => true
  | _ => false

def elementsPattern (self : Self) (use : PatternUse) (comma? : Option Nat) (endsInHole : Bool) :
    List Expr → Parse (List Pattern)
  | [] => return []
  | .hole _ :: rest => elementsPattern self use comma? endsInHole rest
  | .spread inner span :: rest => do
    if endsInHole || !rest.isEmpty then
      record inner.span.lo .restNotLast
      elementsPattern self use comma? endsInHole rest
    else
      if inner.isAssignment then record span.lo .restParameterWithValue
      if let some comma := comma? then record comma .commaAfterRest
      return [.rest (← self.asPattern use.inner inner) inner.span]
  | element :: rest => do
    let pattern ← self.asPattern use.inner element
    return pattern :: (← elementsPattern self use comma? endsInHole rest)

def Expr.isElementTarget : Expr → Bool
  | .member _ _ chained _ | .call _ _ chained _ => !chained
  | .superMember .. | .new .. | .literal .. | .ident _ | .function .. | .classExpr .. | .paren ..
  | .template .. | .typed .asType _ _ => true
  | _ => false

def Expr.toPattern : Expr → Pattern
  | .ident id => .ident id
  | other => .expr other

def patternOf (self : Self) (use : PatternUse) (expr : Expr) : Parse Pattern := do
  match use, expr with
  | _, .missing span => return .unsupported "invalid pattern" span
  | _, .array elements span =>
    let endsInHole := elements.getLast?.any Expr.isHole
    let comma? ← lastComma? span.lo
    return .array (← elementsPattern self use comma? endsInHole elements) span
  | _, .object members span =>
    return .object (← membersPattern self use (← lastComma? span.lo) members) span
  | .target, other =>
    checkTarget other true
    return other.toPattern
  | _, .assign "=" target value span =>
    return .initialized (← self.asPattern use target) value span
  | _, .assignPattern target value span => return .initialized target value span
  | .binding, .ident id => return .ident id
  | .binding, other => invalidPattern other.span
  | .element, other =>
    if other.isElementTarget then
      unless other.isAssignable (← context).strict do record other.span.lo .notSimple
      return other.toPattern
    unless other.isAssignment do record other.span.lo .invalidPattern
    invalidPattern other.span

end Seepage.Script
