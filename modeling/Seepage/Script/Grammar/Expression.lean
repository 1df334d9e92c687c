import Seepage.Script.Grammar.Arrow

set_option autoImplicit false

namespace Seepage.Script

open Parse

def literal (value : Literal) : Parse Expr := do
  let span := (← get).lexeme.span
  advance
  return .literal value span

def canBeArrow : Parse Bool := do
  return (← get).arrowStart? == some (← here)

def genericAsyncArrow? (self : Self) : Parse (Option Expr) :=
  attempt do
    let start ← here
    advance
    let _ ← TypeNotation.params self ⟨false, false⟩
    expect .parenL
    let patterns ← params self
    expect .parenR
    if ← isAt .colon then TypeNotation.resultType self .colon
    expect .arrow
    arrowRest self start true patterns

def asyncStart? (self : Self) : Parse (Option Expr) := do
  let span := (← get).lexeme.span
  let canBeArrow ← canBeArrow
  let next ← lookToken
  let nextOnLine ← lookTokenOnLine
  if nextOnLine == .word "function" then
    advance
    return some (← functionExpr self span.lo true)
  if canBeArrow && (← context).typed && next == .punct .lt then
    if let some arrow ← genericAsyncArrow? self then return some arrow
  if canBeArrow && nextOnLine == .punct .parenL then
    advance
    return some (← parenthesized self canBeArrow (some ⟨"async", span⟩))
  return none

def asyncParam (self : Self) (name : Ident) : Parse Expr := do
  let start := name.span.lo
  let context ← context
  if context.forHead && (← isWord "of") && (← lookToken) != .punct .arrow then
    unless context.forAwaitHead do record start .asyncInForHead
    return .ident name
  let param ← bindingName true
  if context.typed && param.name == "as" && !(← isAt .arrow) then
    self.type
    return .typed .asType (.ident name) (← spanFrom start)
  expect .arrow
  arrowRest self start true [.ident param]

def namePrimary (self : Self) : Parse Expr := do
  let canBeArrow ← canBeArrow
  let id ← identifier
  if !canBeArrow || (← newlineBefore) then return .ident id
  if id.name == "async" && (← atReference) then return ← asyncParam self id
  if ← eat .arrow then
    if isEvalOrArguments id.name then recordStrict id.span.lo .bindingOfEval
    arrowRest self id.span.lo false [.ident id]
  else return .ident id

def classExpr (self : Self) : Parse Expr := do
  let start ← here
  let parts ← classParts self start false (bindingName? false)
  return .classExpr parts.name? parts.parent? parts.members parts.span

def wordPrimary (self : Self) (name : String) : Parse Expr := do
  let span := (← get).lexeme.span
  match name with
  | "this" => advance; return .this span
  | "null" => literal .null
  | "true" => literal (.bool true)
  | "false" => literal (.bool false)
  | "function" => functionExpr self span.lo false
  | "class" => classExpr self
  | "let" => namePrimary self
  | _ =>
    if name == "async" then
      if let some expr ← asyncStart? self then return expr
    if ← atReference then namePrimary self
    else fail .expressionExpected

def primary (self : Self) : Parse Expr := do
  match ← token with
  | .word name => wordPrimary self name
  | .escapedName _ => namePrimary self
  | .string value => literal (.string value)
  | .number text => literal (.number text)
  | .bigInt text => literal (.bigInt text)
  | .template _ => template self
  | .punct .hash =>
    let id ← privateName
    return .unsupported "unsupported expression" id.span
  | .punct .bracketL => arrayLiteral self
  | .punct .braceL => objectLiteral self
  | .punct .parenL => parenthesized self (← canBeArrow) none
  | .punct .slash | .punct .slashAssign => regex
  | _ => fail .expressionExpected

def indexKey (self : Self) : Parse Key := do
  expect .bracketL
  let key ← allowingIn self.expr
  expect .bracketR
  return .computed key

def isTemplate : Token → Bool
  | .template _ => true
  | _ => false

def atExpressionStart : Parse Bool := do
  match ← token with
  | .string _ | .number _ | .bigInt _ | .template _ | .regex .. | .escapedName _ => return true
  | .word name =>
    if ["this", "super", "null", "true", "false", "function", "class", "new", "delete", "typeof",
        "void", "await", "yield"].contains name then return true
    if name == "import" then
      match ← lookToken with
      | .punct .parenL | .punct .lt | .punct .dot => return true
      | _ => return false
    atReference
  | .punct op =>
    match op with
    | .parenL | .bracketL | .braceL | .slash | .slashAssign | .plus | .minus | .tilde | .bang
    | .plusPlus | .minusMinus | .lt | .hash => return true
    | _ => return op.precedence?.isSome
  | _ => return false

def instantiated (self : Self) (start : Nat) (base : Expr) : Parse Expr := do
  if (← context).typed && (← TypeNotation.atArgs) then
    let found ← attempt do
      TypeNotation.args self
      match ← token with
      | .punct .lt | .punct .gt | .punct .assign | .punct .shiftR | .punct .ge | .punct .plus
      | .punct .minus | .punct .parenL | .template _ => fail .expressionExpected
      | _ =>
        unless (← newlineBefore) || (← atOperator) || !(← atExpressionStart) do
          fail .expressionExpected
    if found.isSome then return .typed .instantiation base (← spanFrom start)
  return base

inductive Callee where
  | expr (value : Expr)
  | superWord (span : Span)
  | importWord (span : Span)

namespace Callee

def span : Callee → Span
  | .expr value => value.span
  | .superWord span | .importWord span => span

def toExpr : Callee → Expr
  | .expr value => value
  | .superWord span => .unsupported "super" span
  | .importWord span => .unsupported "dynamic import" span

def isImport : Callee → Bool
  | .importWord _ => true
  | _ => false

def continuesChain : Callee → Bool
  | .expr value => value.continuesChain
  | _ => false

end Callee

structure Subscripted where
  value : Expr
  again : Bool := true

def typeArgumented? (self : Self) (base : Expr) (noCall : Bool) : Parse (Option Subscripted) :=
  attempt do
    let start := base.span.lo
    TypeNotation.args self
    match ← token with
    | .punct .parenL =>
      if noCall then failUnexpected "`"
      let args ← arguments self false
      return { value := .call base args base.isChained (← spanFrom start) }
    | .template _ => return { value := ← taggedTemplate self base }
    | .punct .assign | .word "as" | .word "satisfies" =>
      return { value := .typed .instantiation base (← spanFrom start), again := false }
    | _ => failUnexpected (if noCall then "`" else "( or `")

def checkSuper (span : Span) (optional noCall : Bool) : Parse Unit := do
  if !(← context).allowSuper then failAt span .superNotAllowed
  if optional then
    failAt span (if noCall then .superCallNotAllowed else .superNotAllowed)

def indexed (self : Self) (callee : Callee) (optional noCall : Bool) : Parse Subscripted := do
  let key ← indexKey self
  let span ← spanFrom callee.span.lo
  match callee with
  | .superWord keyword =>
    checkSuper keyword optional noCall
    return { value := .superMember keyword key span }
  | _ => return { value := .member callee.toExpr key (optional || callee.continuesChain) span }

def called (self : Self) (callee : Callee) (optional : Bool) : Parse Subscripted := do
  if (← context).typed then TypeNotation.optionalArgs self
  let args ← arguments self callee.isImport
  let chained := optional || callee.continuesChain
  if chained && !(callee matches .expr _) then fail .optionalSuper
  return { value := .call callee.toExpr args chained (← spanFrom callee.span.lo) }

def importMember (self : Self) (span : Span) (name : Ident) : Parse Expr := do
  unless (← context).moduleGoal do record span.lo .metaOutsideModule
  let whole ← spanFrom span.lo
  if name.name == "meta" then return .unsupported "unsupported expression" whole
  let args ← arguments self true
  return .call (.unsupported "dynamic import" span) args false whole

def accessed (self : Self) (callee : Callee) (optional noCall : Bool) : Parse Subscripted := do
  let isPrivate ← isAt .hash
  let name ← memberName
  let span ← spanFrom callee.span.lo
  match callee with
  | .superWord keyword =>
    checkSuper keyword optional noCall
    if isPrivate then fail .superPrivateName
    return { value := .superMember keyword (.named name.name) span }
  | .importWord keyword =>
    if isPrivate then failUnexpected "meta"
    return { value := ← importMember self keyword name }
  | .expr object =>
    return { value := .member object (.named name.name) (optional || object.continuesChain) span }

def nonNull (callee : Callee) : Parse Subscripted := do
  expect .bang
  match callee with
  | .superWord _ => fail (.nonNullNotAllowed "super")
  | .importWord _ => fail (.nonNullNotAllowed "import")
  | .expr value => return { value := .typed .nonNull value (← spanFrom value.span.lo) }

def unsubscripted (self : Self) (callee : Callee) (noCall : Bool) : Parse Subscripted := do
  match callee with
  | .expr value =>
    if isTemplate (← token) then return { value := ← taggedTemplate self value }
    return { value, again := false }
  | .superWord _ => fail (if noCall then .superCallNotAllowed else .superNotAllowed)
  | .importWord _ => fail .importNotAllowed

def subscript (self : Self) (callee : Callee) (noCall noIndex : Bool) : Parse Subscripted := do
  let typed := (← context).typed
  if typed && !(← newlineBefore) && (← isAt .bang) then return ← nonNull callee
  if typed && (← TypeNotation.atArgs) then
    if let .expr base := callee then
      if let some result ← typeArgumented? self base noCall then return result
  let optional ← eat .chain
  match ← token with
  | .punct .bracketL =>
    unless noIndex do return ← indexed self callee optional noCall
  | .punct .parenL =>
    if optional || !noCall then return ← called self callee optional
  | .punct .lt =>
    if optional && typed then return ← called self callee optional
  | _ => pure ()
  if optional then return ← accessed self callee optional noCall
  if ← eat .dot then return ← accessed self callee optional noCall
  unsubscripted self callee noCall

def subscripts (self : Self) (callee : Callee) (noCall noIndex : Bool) : Parse Expr :=
  loop callee fun callee => do
    let next ← subscript self callee noCall noIndex
    return if next.again then .inl (.expr next.value) else .inr next.value

def importRest (self : Self) (keyword : Span) (noCall : Bool) : Parse Expr := do
  if ← eat .dot then
    let name ← anyName
    let span ← spanFrom keyword.lo
    match name.name with
    | "meta" =>
      unless (← context).moduleGoal do record keyword.lo .metaOutsideModule
      subscripts self (.expr (.unsupported "unsupported expression" span)) noCall false
    | "defer" | "source" => subscripts self (.importWord span) noCall false
    | _ => failUnexpected "meta"
  else subscripts self (.importWord keyword) noCall false

def newTarget (self : Self) (start : Nat) : Parse Expr := do
  unless ← eatWord "target" do failUnexpected "target"
  let span ← spanFrom start
  let context ← context
  unless context.inPlainFunction || context.inParameters || context.inClass do
    record start .newTargetOutside
  subscripts self (.expr (.unsupported "unsupported expression" span)) true false

def newRest (self : Self) (start : Nat) : Parse Expr := do
  if ← eat .dot then return ← newTarget self start
  let callee ← self.newOperand
  if callee.isArrow then return callee
  if callee.isChained then failAt callee.span .newOnChain
  if (← context).typed && (← TypeNotation.atArgs) then
    let _ ← attempt do
      TypeNotation.args self
      unless ← isAt .parenL do failExpecting "("
  if ← isAt .parenL then
    let args ← arguments self false
    subscripts self (.expr (.new callee args (← spanFrom start))) true false
  else return .new callee [] (← spanFrom start)

def memberOrNew (self : Self) : Parse Expr := do
  let lexeme := (← get).lexeme
  let start := lexeme.span.lo
  match lexeme.token with
  | .word "new" =>
    advance
    newRest self start
  | .word "super" =>
    advance
    subscripts self (.superWord lexeme.span) true false
  | .word "import" =>
    advance
    importRest self lexeme.span true
  | _ =>
    let base ← primary self
    if base.isArrow then return base
    subscripts self (.expr (← instantiated self start base)) true false

def leftHand (self : Self) : Parse Expr := do
  let lexeme := (← get).lexeme
  match lexeme.token with
  | .word "super" =>
    advance
    subscripts self (.superWord lexeme.span) false false
  | .word "import" =>
    advance
    importRest self lexeme.span false
  | _ =>
    let base ← memberOrNew self
    if base.isArrow then return base
    let hasTypes ←
      if (← context).typed && (← TypeNotation.atArgs) then
        Option.isSome <$> attempt do
          TypeNotation.args self
          unless ← isAt .parenL do failExpecting "("
      else pure false
    if (← isAt .parenL) || hasTypes then
      let call ← called self (.expr base) false
      subscripts self (.expr call.value) false false
    else return base

def heritageElement (self : Self) : Parse Nat := do
  let id ← anyName
  let start := id.span.lo
  let name ← subscripts self (.expr (.ident id)) true true
  match name with
  | .typed .instantiation _ _ => return start
  | .ident _ | .member _ _ false _ => TypeNotation.optionalArgs self
  | _ =>
    record start .invalidHeritage
    TypeNotation.optionalArgs self
  return start

def heritage (self : Self) : Parse (List Nat) := do
  let atClose : Parse Bool := do
    return (← isAt .braceL) || (← isWord "implements") || (← isWord "extends")
  let found ← loop (β := List Nat) [] fun found => do
    if ← atClose then return .inr found
    let found := (← heritageElement self) :: found
    if ← eat .comma then return .inl found
    if ← atClose then return .inr found
    failExpecting ","
  return found.reverse

def endsAwait : Parse Bool := do
  match ← token with
  | .punct .parenR | .punct .bracketR | .punct .comma => return true
  | _ => atStatementEnd

def awaitExpr (self : Self) : Parse Expr := do
  let start ← here
  let context ← context
  advance
  if ← isAt .star then fail .awaitStar
  let keyword ← spanFrom start
  if !context.inAsync && (← endsAwait) then
    if context.moduleGoal then record start .awaitAsName
    return .ident ⟨"await", keyword⟩
  if context.topLevel && !context.moduleGoal then record start .awaitOutsideModule
  if context.inFunction && !context.inAsync then record start .awaitOutsideAsync
  if context.inParameters && !context.inFunction then record start .awaitInParameter
  let argument ← self.unary
  return .await argument (← spanFrom start)

def Expr.unwrapParens : Expr → Expr
  | .paren inner _ => inner.unwrapParens
  | expr => expr

def checkDeleted (operand : Expr) : Parse Unit := do
  if let .ident id := operand then recordStrict id.span.lo .deleteOfName
  if (← context).typed then
    match operand.unwrapParens with
    | .member .. => return
    | other => record other.span.lo .deleteOfOther

def prefixed (self : Self) (op : String) : Parse Expr := do
  let start ← here
  advance
  let before := (← here) - 1
  let operand ← match ← caught self.unary with
    | .ok operand => pure operand
    | .error failure =>
      recordFault failure.fault
      pure (.missing ⟨before, before⟩)
  if op == "delete" then checkDeleted operand
  return .unary op operand ⟨start, operand.span.hi⟩

def assertion (self : Self) : Parse Expr := do
  let start ← here
  TypeNotation.expectAngle '<'
  let isConst ← eatWord "const"
  unless isConst do self.type
  TypeNotation.expectAngle '>'
  let inner ← self.unary
  return .typed (if isConst then .asConst else .before) inner (← spanFrom start)

def postfixed (self : Self) : Parse Expr := do
  let operand ← leftHand self
  if operand.isArrow || (← newlineBefore) then return operand
  match ← token with
  | .punct .plusPlus | .punct .minusMinus =>
    let op := (← get).lexeme.raw
    checkTarget operand false
    advance
    return .update op false operand (← spanFrom operand.span.lo)
  | _ => return operand

def unary (self : Self) : Parse Expr := do
  let start ← here
  match ← token with
  | .punct .plusPlus | .punct .minusMinus =>
    let op := (← get).lexeme.raw
    advance
    let operand ← self.unary
    checkTarget operand false
    return .update op true operand ⟨start, operand.span.hi⟩
  | .punct .plus => prefixed self "+"
  | .punct .minus => prefixed self "-"
  | .punct .tilde => prefixed self "~"
  | .punct .bang => prefixed self "!"
  | .word "delete" => prefixed self "delete"
  | .word "void" => prefixed self "void"
  | .word "typeof" => prefixed self "typeof"
  | .word "await" => awaitExpr self
  | .punct .lt => if (← context).typed then assertion self else postfixed self
  | _ => postfixed self

def operator? : Parse (Option (String × Nat)) := do
  match ← token with
  | .punct op => return op.precedence?.map (op.text, ·)
  | .word "instanceof" => return some ("instanceof", 7)
  | .word "in" => return if (← context).allowIn then some ("in", 7) else none
  | _ => return none

def Expr.isLogicalOr : Expr → Bool
  | .binary op _ _ _ => op == "||" || op == "&&"
  | _ => false

def Expr.mixesNullish : Expr → Bool
  | .binary op (.binary inner _ _ _) _ _ => (op == "||" || op == "&&") && inner == "??"
  | _ => false

def ascribed? (self : Self) (left : Expr) : Parse (Option Expr) := do
  if ← eatWordOnLine "as" then
    if ← eatWord "const" then return some (.typed .asConst left (← spanFrom left.span.lo))
    self.type
    return some (.typed .asType left (← spanFrom left.span.lo))
  if ← eatWordOnLine "satisfies" then
    self.type
    return some (.typed .satisfies left (← spanFrom left.span.lo))
  return none

def operatorStep (self : Self) (left : Expr) (least : Nat) : Parse (Expr × Bool) := do
  if (← context).typed && least < 7 then
    if let some typed ← ascribed? self left then return (typed, true)
  match ← operator? with
  | none => return (left, false)
  | some (op, precedence) =>
    if precedence ≤ least then return (left, false)
    advance
    if op == "**" then
      match left with
      | .unary .. | .await .. => fail .unaryBeforePower
      | _ => pure ()
    let operand ← self.unary
    let right ← self.operators operand (if op == "**" then precedence - 1 else precedence)
    if op == "??" then
      if left.isLogicalOr then record left.span.lo .mixedNullish
      if right.isLogicalOr then record right.span.lo .mixedNullish
    return (.binary op left right ⟨left.span.lo, right.span.hi⟩, true)

def operators (self : Self) (left : Expr) (least : Nat) : Parse Expr :=
  loop left fun left => do
    let (next, again) ← operatorStep self left least
    if next.mixesNullish then record next.span.lo .mixedNullish
    return if again then .inl next else .inr next

def binary (self : Self) : Parse Expr := do
  match ← caught self.unary with
  | .ok left => if left.isArrow then return left else self.operators left 0
  | .error failure =>
    expectToken
    match ← operator? with
    | none => throw failure
    | some _ =>
      record (← here) .expressionExpected
      self.operators (.missing failure.span) 0

def conditional (self : Self) : Parse Expr := do
  let start ← here
  let test ← self.binary
  if test.isArrow then return test
  finishConditional self start test

def startsOperand : Token → Bool
  | .word name =>
    !keywords.contains name ||
      ["this", "null", "true", "false", "function", "class", "new", "super", "import", "typeof",
       "void", "delete"].contains name
  | .escapedName _ | .string _ | .number _ | .bigInt _ | .template _ => true
  | .punct .bang | .punct .tilde | .punct .parenL | .punct .bracketL | .punct .braceL
  | .punct .plusPlus | .punct .minusMinus | .punct .plus | .punct .minus | .punct .slash
  | .punct .slashAssign | .punct .star => true
  | _ => false

def yieldExpr (self : Self) : Parse Expr := do
  let start ← here
  let context ← context
  advance
  if context.inParameters && !context.inFunction then failFrom start .yieldInParameter
  if (← atStatementEnd) || !startsOperand (← token) then
    return .yield none (← spanFrom start)
  let _ ← eat .star
  let argument ← self.assign
  return .yield (some argument) (← spanFrom start)

def Expr.startingAt (start : Nat) : Expr → Expr
  | .arrow (.mk params body span) => .arrow (.mk params body ⟨start, span.hi⟩)
  | expr => expr

def genericArrow? (self : Self) : Parse (Option Expr) := do
  if (← context).typed && (← isAt .lt) && (← lookToken).name?.isSome then
    inContext ({ · with colonPending := false }) <| attempt do
      let start ← here
      let _ ← TypeNotation.params self TypeNotation.ofFunction
      let arrow ← self.assign
      unless arrow.isArrow do failUnexpected "("
      return arrow.startingAt start
  else return none

def startsArrow : Token → Bool
  | .word name => name == "yield" || !(name == "let" || name == "await" || keywords.contains name)
  | .escapedName _ | .punct .parenL => true
  | _ => false

def assign (self : Self) : Parse Expr := do
  let start ← here
  if let some arrow ← genericArrow? self then return arrow
  if (← context).inGenerator && (← isWord "yield") then return ← yieldExpr self
  expectToken
  let canBeArrow := startsArrow (← token)
  modify ({ · with arrowStart? := if canBeArrow then some start else none })
  let target ← conditional self
  match target with
  | .arrow _ | .conditional .. | .binary .. | .unary .. | .update .. => return target
  | _ => finishAssign self start target

def expression (self : Self) : Parse Expr := do
  let start ← here
  let first ← self.assign
  if ← isAt .comma then
    let rest ← collect do
      if ← eat .comma then return some (← self.assign)
      return none
    return .sequence (first :: rest) (← spanFrom start)
  return first

end Seepage.Script
