import Seepage.Script.Grammar.Template

set_option autoImplicit false

namespace Seepage.Script

open Parse

def followsModifier : Token → Bool
  | .word _ | .escapedName _ | .string _ | .number _ | .bigInt _ => true
  | .punct .bracketL | .punct .braceL | .punct .star | .punct .dots | .punct .hash => true
  | _ => false

def modifier? (allowed : List String) : Parse (Option String) := do
  unless (← context).typed do return none
  expectToken
  match ← token with
  | .word name =>
    if allowed.contains name && followsModifier (← lookTokenOnLine) then
      advance
      return some name
    return none
  | _ => return none

def propertyModifiers : List String :=
  ["public", "protected", "private", "readonly"]

def eatPropertyModifier : Parse Bool := do
  match ← token with
  | .word name =>
    if (← context).typed && propertyModifiers.contains name then
      match ← lookToken with
      | .word _ | .escapedName _ | .punct .braceL | .punct .bracketL =>
        let _ ← modifier? propertyModifiers
        return true
      | _ => return false
    return false
  | _ => return false

namespace TypeNotation

def eatAngle (bracket : Char) : Parse Bool := do
  let lexeme := (← get).lexeme
  match lexeme.token, lexeme.text with
  | .punct _, c :: rest =>
    if c = bracket then
      modify ({ · with lastEnd := lexeme.span.lo + 1 })
      moveTo rest (lexeme.span.lo + 1) false
      return true
    else return false
  | _, _ => return false

def expectAngle (bracket : Char) : Parse Unit := do
  unless ← eatAngle bracket do failExpecting (String.singleton bracket)

def atArgs : Parse Bool := do
  match ← token with
  | .punct .lt | .punct .shiftL => return true
  | _ => return false

def delimited (atClose : Parse Bool) (item : Parse Unit) : Parse Unit :=
  loop () fun _ => do
    if ← atClose then return .inr ()
    item
    if ← eat .comma then return .inl ()
    if ← atClose then return .inr ()
    failExpecting ","

def closesAngle : Parse Bool := do
  match (← token), (← get).lexeme.text with
  | .punct _, '>' :: _ => return true
  | _, _ => return false

def args (self : Self) : Parse Unit := do
  let start ← here
  expectAngle '<'
  let isEmpty ← closesAngle
  delimited closesAngle self.type
  expectAngle '>'
  if isEmpty then record start .emptyTypeArguments

def optionalArgs (self : Self) : Parse Unit := do
  if ← isAt .lt then args self

structure ParamRules where
  variance : Bool
  constness : Bool

structure Variance where
  isIn : Bool := false
  isOut : Bool := false

def paramModifiers : List String :=
  ["public", "private", "protected", "readonly", "abstract", "const", "override", "in", "out"]

def modifierFault? (rules : ParamRules) (seen : Variance) (name : String) : Option Cause :=
  match name with
  | "const" => if rules.constness then none else some (.modifierOfTypeFunction name)
  | "in" =>
    if !rules.variance then some (.modifierOfTypeOwner name)
    else if seen.isIn then some (.modifierSeen name)
    else if seen.isOut then some (.modifierOrder name "out")
    else none
  | "out" =>
    if !rules.variance then some (.modifierOfTypeOwner name)
    else if seen.isOut then some (.modifierSeen name)
    else none
  | _ => some (.modifierOnTypeParameter name)

def param (self : Self) (rules : ParamRules) : Parse Unit := do
  loop ({} : Variance) fun seen => do
    let pos ← here
    match ← modifier? paramModifiers with
    | none => return .inr ()
    | some name =>
      if let some cause := modifierFault? rules seen name then record pos cause
      return .inl ⟨seen.isIn || name == "in", seen.isOut || name == "out"⟩
  let _ ← anyName
  if ← eatWord "extends" then self.type
  if ← eat .assign then self.type

def params (self : Self) (rules : ParamRules) : Parse (List Nat) := do
  unless ← eat .lt do failUnexpected "< (jsx tag start)"
  let starts ← loop (β := List Nat) [] fun starts => do
    if ← closesAngle then return .inr starts
    let start ← here
    param self rules
    let starts := start :: starts
    if ← eat .comma then return .inl starts
    if ← closesAngle then return .inr starts
    failExpecting ","
  expectAngle '>'
  return starts.reverse

def optionalParams (self : Self) (rules : ParamRules) : Parse Unit := do
  if ← isAt .lt then
    let _ ← params self rules

def ofFunction : ParamRules := ⟨false, true⟩

def ofInterface : ParamRules := ⟨true, false⟩

def annotation? (self : Self) : Parse Bool := do
  if ← eat .colon then
    self.type
    return true
  return false

def annotation (self : Self) : Parse Unit := do
  let _ ← annotation? self

def resultType (self : Self) (mark : Punct) : Parse Unit := do
  expect mark
  let asserts ← if ← isWord "asserts" then pure (refers (← context) (← lookToken)) else pure false
  if asserts then advance
  let tells ← if ← atReference then pure ((← lookTokenOnLine) == .word "is") else pure false
  if asserts || tells then
    let _ ← anyName
    if tells then
      advance
      self.type
  else self.type

def isSignatureParam : Pattern → Bool
  | .ident _ | .array .. | .object .. | .rest .. => true
  | _ => false

def signatureParams (self : Self) : Parse Unit := do
  expect .parenL
  let patterns ← self.params
  unless patterns.all isSignatureParam do
    failUnexpected ("an identifier, [ for an array pattern, \x7b for an object patter or ... " ++
      "for a rest pattern")
  expect .parenR

def functionType (self : Self) : Parse Unit := do
  optionalParams self ofFunction
  signatureParams self
  resultType self .arrow

def qualifiedName : Parse Unit := do
  let first ← anyName
  if first.name == "void" then record (← here) .semicolonExpected
  loop () fun _ => do
    if ← eat .dot then
      if (← isAt .hash) || (← atWord) then
        let _ ← anyName
        return .inl ()
      record (← here) .nameExpected
    return .inr ()

def memberEnd : Parse Unit := do
  unless ← eat .comma do expectSemicolon

def atIndexSignature : Parse Bool := do
  if ← isAt .bracketL then
    let found ← look do
      advance
      if !(← atReference) then return false
      advance
      return (← isAt .colon) || (← isAt .comma)
    return found.getD false
  return false

def indexSignature (self : Self) : Parse Unit := do
  expect .bracketL
  let id ← anyName
  if ← eat .comma then record id.span.lo .indexParameterCount
  else expect .colon
  self.type
  expect .bracketR
  annotation self
  memberEnd

def memberKey (self : Self) : Parse Unit := do
  if ← eat .bracketL then
    let _ ← self.assign
    expect .bracketR
  else
    match ← token with
    | .string _ | .number _ => advance
    | .punct .hash =>
      let id ← privateName
      record id.span.lo .privateInInterface
    | _ =>
      let _ ← anyName

def signature (self : Self) : Parse Unit := do
  optionalParams self ofFunction
  signatureParams self
  if ← isAt .colon then resultType self .colon
  memberEnd

def accessorSignature (self : Self) : Parse Unit := do
  let isGetter ← eatWord "get"
  unless isGetter do expectWord "set"
  memberKey self
  if isGetter then
    expect .parenL
    expect .parenR
    annotation self
  else
    if (← lookToken) == .punct .parenR then fail .setterWithoutParameter
    signatureParams self
  memberEnd

def property (self : Self) (isReadonly : Bool) : Parse Unit := do
  memberKey self
  let _ ← eat .question
  if (← isAt .parenL) || (← isAt .lt) then
    if isReadonly then fail .readonlyMethod
    signature self
  else
    annotation self
    memberEnd

def atConstructSignature : Parse Bool := do
  if ← isWord "new" then
    match ← lookToken with
    | .punct .parenL | .punct .lt => return true
    | _ => return false
  return false

def member (self : Self) : Parse Unit := do
  if (← isAt .parenL) || (← isAt .lt) then signature self
  else if ← atConstructSignature then
    advance
    signature self
  else
    let isReadonly := (← modifier? ["readonly"]).isSome
    if ← atIndexSignature then indexSignature self
    else if isReadonly then property self true
    else unless (← attempt (accessorSignature self)).isSome do property self false

def members (self : Self) : Parse Unit := do
  expect .braceL
  loop () fun _ => do
    if ← isAt .braceR then return .inr ()
    member self
    return .inl ()
  expect .braceR

def atMapping : Parse Bool := do
  let found ← look do
    advance
    if ← eatSign then return ← isWord "readonly"
    let _ ← eatWord "readonly"
    unless ← eat .bracketL do return false
    unless ← atReference do return false
    advance
    isWord "in"
  return found.getD false

def mapping (self : Self) : Parse Unit := do
  expect .braceL
  if ← eatSign then expectWord "readonly"
  else
    let _ ← eatWord "readonly"
  expect .bracketL
  let _ ← anyName
  unless ← eatWord "in" do failUnexpected "in"
  self.type
  if ← eatWord "as" then self.type
  expect .bracketR
  if ← eatSign then expect .question
  else
    let _ ← eat .question
  annotation self
  expectSemicolon
  expect .braceR

structure TupleItem where
  isOptional : Bool
  isRest : Bool

def tupleItem (self : Self) : Parse TupleItem := do
  let _ ← attempt do
    let _ ← eat .dots
    let _ ← anyName
    let _ ← eat .question
    expect .colon
  if ← eat .dots then
    self.type
    return ⟨false, true⟩
  self.type
  return ⟨← eat .question, false⟩

def requiredAfterOptional : List TupleItem → Bool
  | [] => false
  | item :: rest =>
    (item.isOptional && rest.any fun later => !later.isOptional && !later.isRest) ||
      requiredAfterOptional rest

def tuple (self : Self) : Parse Unit := do
  let start ← here
  expect .bracketL
  let items ← loop (β := List TupleItem) [] fun items => do
    if ← isAt .bracketR then return .inr items
    let items := (← tupleItem self) :: items
    if ← eat .comma then return .inl items
    if ← isAt .bracketR then return .inr items
    failExpecting ","
  expect .bracketR
  if requiredAfterOptional items.reverse then failFrom start .requiredAfterOptional

def importType (self : Self) : Parse Unit := do
  advance
  expect .parenL
  expectToken
  let pos ← here
  match ← token with
  | .string _ => advance
  | _ =>
    advance
    record pos .stringExpected
  if (← eat .comma) && (← isAt .braceL) then
    advance
    expectWord "with"
    expect .colon
    let _ ← self.object
    let _ ← eat .comma
    expect .braceR
  expect .parenR
  if ← eat .dot then qualifiedName
  optionalArgs self

def keywordTypes : List String :=
  ["void", "null", "any", "boolean", "bigint", "never", "number", "object", "string", "symbol",
   "unknown", "undefined", "intrinsic"]

def typeWords : List String :=
  ["void", "yield", "null", "await", "break"]

def reference (self : Self) : Parse Unit := do
  let start ← here
  let hasModifier ← eatPropertyModifier
  qualifiedName
  unless ← newlineBefore do optionalArgs self
  if hasModifier then record start .parameterProperty

def named (self : Self) (name : String) : Parse Unit := do
  let next ← lookToken
  if name == "asserts" && next == .word "this" then
    advance
    advance
    if ← eatWord "is" then self.type
  else if keywordTypes.contains name && next != .punct .dot then advance
  else reference self

def failType : Parse Unit :=
  failUnexpected ("an identifier, void, yield, null, await, break, a string literal, a numeric " ++
    "literal, true, false, `, -, import, this, typeof, \x7b, [, (")

def wordType (self : Self) (name : String) : Parse Unit := do
  match name with
  | "true" | "false" => advance
  | "import" => importType self
  | "this" =>
    advance
    if ← eatWordOnLine "is" then self.type
  | "typeof" =>
    advance
    if ← isWord "import" then importType self else qualifiedName
    unless ← newlineBefore do optionalArgs self
  | _ =>
    if typeWords.contains name || !(name == "let" || keywords.contains name) then named self name
    else failType

def primary (self : Self) : Parse Unit := do
  expectToken
  match ← token with
  | .word name => wordType self name
  | .escapedName name => named self name
  | .string _ | .number _ | .bigInt _ => advance
  | .template _ =>
    let _ ← Template.read false self.type
  | .punct .minus =>
    advance
    expectToken
    match ← token with
    | .number _ | .bigInt _ => advance
    | _ => failUnexpected "numeric literal or bigint literal"
  | .punct .braceL => if ← atMapping then mapping self else members self
  | .punct .bracketL => tuple self
  | .punct .parenL => advance; self.type; expect .parenR
  | _ => failType

def inferred (self : Self) : Parse Unit := do
  advance
  let _ ← anyName
  let _ ← attempt do
    expectWord "extends"
    self.plainType
    if !(← context).plainTypes && (← isAt .question) then fail .expressionExpected

def operand (self : Self) : Parse Unit := do
  match ← token with
  | .word "keyof" | .word "unique" | .word "readonly" => advance; self.typeOperand
  | .word "infer" => inferred self
  | _ =>
    let _ ← modifier? ["readonly"]
    primary self
    loop () fun _ => do
      if ← eatOnLine .bracketL then
        unless ← isAt .bracketR do self.type
        expect .bracketR
        return .inl ()
      return .inr ()

def joined (op : Punct) (operand : Parse Unit) : Parse Unit := do
  let _ ← eat op
  operand
  loop () fun _ => do
    if ← eat op then
      operand
      return .inl ()
    return .inr ()

def atFunctionParams : Parse Bool := do
  match ← lookToken with
  | .punct .parenR | .punct .dots => return true
  | _ => return false

def skipFirstParam (self : Self) : Parse Bool := do
  let _ ← eatPropertyModifier
  if (← atReference) || (← isWord "this") then
    advance
    return true
  if (← isAt .braceL) || (← isAt .bracketL) then
    return (← caught self.binding) matches .ok _
  return false

def atFunctionType (self : Self) : Parse Bool := do
  if ← isAt .lt then return true
  unless ← isAt .parenL do return false
  if ← atFunctionParams then return true
  let found ← look do
    advance
    unless ← skipFirstParam self do return false
    match ← token with
    | .punct .colon | .punct .comma | .punct .question | .punct .assign => return true
    | .punct .parenR =>
      advance
      isAt .arrow
    | _ => return false
  return found.getD false

def plain (self : Self) : Parse Unit := do
  if ← atFunctionType self then functionType self
  else if ← isWord "new" then
    advance
    functionType self
  else if (← isWord "abstract") && (← lookToken) == .word "new" then
    advance
    advance
    functionType self
  else joined .bar (joined .amp self.typeOperand)

def type (self : Self) : Parse Unit :=
  inContext ({ · with plainTypes := false }) do
    self.plainType
    if ← eatWordOnLine "extends" then
      inContext ({ · with plainTypes := true }) self.plainType
      expect .question
      self.type
      expect .colon
      self.type

end TypeNotation

end Seepage.Script
