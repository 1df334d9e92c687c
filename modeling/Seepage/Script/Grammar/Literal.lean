import Seepage.Script.Grammar.Class

set_option autoImplicit false

namespace Seepage.Script

open Parse

def Context.bracketed (context : Context) : Context :=
  { context with allowIn := true, colonPending := false }

def template (self : Self) : Parse Expr := do
  let parts ← Template.read false (inContext Context.bracketed self.expr)
  return .template parts.raw parts.substitutions parts.span

def taggedTemplate (self : Self) (tag : Expr) : Parse Expr := do
  let start := tag.span.lo
  let parts ← Template.read true (inContext Context.bracketed self.expr)
  if tag.isChained then record start .taggedOnChain
  return .tagged tag parts.substitutions (← spanFrom start)

def regex : Parse Expr := do
  let lexeme := (← get).lexeme
  let start := lexeme.span.lo
  install (Lexer.regex lexeme.text start lexeme.newline)
  match ← token with
  | .regex pattern flags =>
    advance
    (Lexer.flagFaults flags.toList).forM (record start)
    return .literal (.regex pattern) (← spanFrom start)
  | _ => fail .expressionExpected

def argument (self : Self) : Parse Expr := do
  let start ← here
  if ← eat .dots then
    let inner ← allowingIn self.assign
    return .spread inner ⟨start, inner.span.hi⟩
  self.assign

def arguments (self : Self) (ofImport : Bool) : Parse (List Expr) :=
  inContext ({ · with colonPending := false }) do
    let start ← here
    expect .parenL
    let args ← loop (β := List Expr) [] fun args => do
      if (← isEnd) || (← isAt .parenR) then return .inr args
      unless args.isEmpty do
        expect .comma
        if ← isAt .parenR then
          if ofImport && !(← context).typed then failFrom start .trailingCommaInImport
          return .inr args
      return .inl ((← allowingIn (argument self)) :: args)
    expect .parenR
    return args.reverse

def noteLastComma (literal comma : Nat) : Parse Unit :=
  modify fun state => { state with lastCommas := (literal, comma) :: state.lastCommas }

def arrayLiteral (self : Self) : Parse Expr :=
  inContext ({ · with colonPending := false }) do
    let start ← here
    expect .bracketL
    let elements ← loop (β := List Expr) [] fun elements => do
      if (← isEnd) || (← isAt .bracketR) then return .inr elements
      let span := (← get).lexeme.span
      if ← eat .comma then return .inl (.hole span :: elements)
      let elements := (← allowingIn (argument self)) :: elements
      unless ← isAt .bracketR do
        let comma ← here
        expect .comma
        if ← isAt .bracketR then noteLastComma start comma
      return .inl elements
    expect .bracketR
    return .array elements.reverse (← spanFrom start)

def objectMethod (self : Self) (start keyStart : Nat) (key : Key) (marks : FunctionMarks) :
    Parse ObjectMember := do
  let body ← inContext ({ · with allowSuper := true, inClassField := false })
    (functionRest self start marks (params self))
  return .method key .method body ⟨keyStart, body.span.hi⟩

def setterParam (pos : Nat) : List Param → Parse Param
  | [] => do
    record pos .setterParameterCount
    return .unsupported "invalid pattern" ⟨0, 0⟩
  | [only] => return only
  | _ :: second :: _ => return second

def objectAccessor (self : Self) (start : Nat) (isGetter : Bool) : Parse ObjectMember := do
  let pos ← here
  let (key, _) ← propertyKey self
  let readParams := if isGetter then getterParams self pos else setterParams self pos
  let .mk params body span ← inContext ({ · with allowSuper := true, inClassField := false })
    (functionRest self start {} readParams)
  if isGetter then return .method key .getter (.mk [] body span) span
  return .method key .setter (.mk [← setterParam pos params] body span) span

def lacksValue (isWord : Bool) : Token → Bool
  | .word _ | .escapedName _ | .string _ | .number _ | .bigInt _ => false
  | .punct .parenL | .punct .bracketL | .punct .colon | .punct .comma | .punct .question
  | .punct .assign | .punct .star | .punct .lt => false
  | .punct .braceR => !isWord
  | _ => true

def failMember {α : Type} : Parse α := do
  if (← context).typed then
    failUnexpected ("... , *,  (, [, :, , ?, =, an identifier, public, protected, private, " ++
      "readonly, <.")
  else failUnexpected "... , *,  (, [, :, , ?, = or an identifier"

def wordMember (self : Self) (start modifierPos : Nat) (hasModifier : Bool) (id : Ident) :
    Parse ObjectMember := do
  let mark ← here
  if ← eat .question then record mark .optionalMember
  match ← token with
  | .punct .assign =>
    advance
    let value ← allowingIn self.assign
    return .initialized id value (← spanFrom start)
  | .punct .comma | .punct .braceR => return .shorthand id
  | _ =>
    match id.name with
    | "get" | "set" =>
      if hasModifier then record modifierPos .asyncNotHere
      objectAccessor self start (id.name == "get")
    | "async" =>
      if hasModifier then record modifierPos .asyncNotHere
      let isGenerator ← eat .star
      let keyStart ← here
      let (key, _) ← propertyKey self
      objectMethod self start keyStart key { isAsync := true, isGenerator }
    | _ => failMember

def objectMember (self : Self) : Parse ObjectMember := do
  let start ← here
  if ← eat .dots then
    let value ← allowingIn self.assign
    return .spread value ⟨start, value.span.hi⟩
  if ← eat .star then
    let keyStart ← here
    let (key, _) ← propertyKey self
    return ← objectMethod self start keyStart key { isGenerator := true }
  let hasModifier ← eatPropertyModifier
  let keyStart ← here
  let (key, name?) ← propertyKey self
  if (← context).typed && lacksValue name?.isSome (← token) then
    record (← here) .semicolonExpected
    return .keyed key (.missing (← spanFrom start)) (← spanFrom keyStart)
  if ← eat .colon then
    let value ← allowingIn self.assign
    return .keyed key value ⟨keyStart, value.span.hi⟩
  if ← atMethod then return ← objectMethod self start keyStart key {}
  match name? with
  | none => failUnexpected "identifier"
  | some id => wordMember self start start hasModifier id

def objectLiteral (self : Self) : Parse Expr := do
  let start ← here
  let (members, lastComma?) ← bracedItems (objectMember self)
  if let some comma := lastComma? then noteLastComma start comma
  return .object members (← spanFrom start)

end Seepage.Script
