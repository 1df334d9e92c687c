import Seepage.Script.Grammar.Function

set_option autoImplicit false

namespace Seepage.Script

open Parse

def atMethod : Parse Bool := do
  if ← isAt .parenL then return true
  return (← context).typed && (← isAt .lt)

def atField (lenient : Bool) : Parse Bool := do
  let ends ← if lenient then atStatementEnd else isAt .semi
  match ← token with
  | .punct .bang | .punct .colon => return (← context).typed || ends
  | .punct .assign | .punct .braceR => return true
  | _ => return ends

def atNamedField (lenient : Bool) : Parse Bool := do
  if ← atField lenient then return true
  return (← context).typed && (← isAt .question)

structure MemberKey where
  key : Key
  word? : Option String := none
  isConstructor : Bool := false
  pos : Nat

def MemberKey.isPrivate (key : MemberKey) : Bool :=
  key.key matches .privateName _

def memberKey (self : Self) : Parse MemberKey := do
  let pos ← here
  if ← isAt .hash then
    let id ← privateName
    if id.name == "#constructor" then record pos .privateConstructor
    return { key := .privateName id.name, pos }
  let isConstructor := match ← token with
    | .word name | .escapedName name | .string name => name == "constructor"
    | _ => false
  let (key, name?) ← propertyKey self
  return { key, word? := name?.map Ident.name, isConstructor, pos }

structure MemberMarks where
  start : Nat
  declare? : Option Nat := none
  hasAccess : Bool := false
  static? : Option Nat := none
  isStatic : Bool := false
  isAccessor : Bool := false
  isAbstract : Bool := false
  isOverride : Bool := false
  isOptional : Bool := false
  readonly? : Option Nat := none
  last? : Option Nat := none

structure ReadMember where
  member? : Option ClassMember
  abstract? : Option Nat := none

def field (self : Self) (marks : MemberMarks) (key : MemberKey) : Parse ReadMember := do
  if key.isConstructor then failFrom key.pos .fieldConstructor
  if key.isPrivate then
    if marks.declare?.isSome then record key.pos (.modifierOnPrivateName "declare")
    if marks.isAbstract then record key.pos (.modifierOnPrivateName "abstract")
  if (← context).typed then
    unless marks.isOptional do
      let _ ← eat .bang
    TypeNotation.annotation self
  inContext ({ · with allowIn := true, inClassField := true }) do
    let value? ← if ← eat .assign then some <$> self.assign else pure none
    unless ← eatSemicolon do record (← here) .semicolonExpected
    if marks.isAccessor then return { member? := none }
    let span ← spanFrom marks.start
    if key.isPrivate then
      if marks.hasAccess then record marks.start .accessOnPrivateName
      return { member? := some (.field key.key value? span) }
    if marks.isAbstract && value?.isSome then record marks.start .abstractWithValue
    return { member? := some (.field key.key value? span)
             abstract? := if marks.isAbstract then some marks.start else none }

def Function.hasBody : Function → Bool
  | .mk _ .absent _ => false
  | _ => true

def method (self : Self) (marks : MemberMarks) (key : MemberKey) (form : MethodForm)
    (function : FunctionMarks) (readParams : Parse (List Pattern)) : Parse ReadMember := do
  let typesPos ← here
  let hasTypes ← isAt .lt
  let body ← inContext ({ · with allowSuper := true, inClassField := false })
    (functionRest self marks.start function readParams)
  if form != .method && hasTypes then record typesPos .typeParametersOnAccessor
  let member := ClassMember.method key.key form body
  if key.isPrivate then
    if marks.hasAccess then record marks.start .accessOnPrivateName
    return { member? := some member }
  if marks.isAbstract && body.hasBody then record marks.start .abstractWithBody
  return { member? := some member
           abstract? := if marks.isAbstract then some marks.start else none }

def namedMember? (self : Self) (marks : MemberMarks) (name : String) (lenient : Bool) :
    Parse (Option ReadMember) := do
  let key : MemberKey := { key := .named name, pos := marks.start }
  if ← atMethod then some <$> method self marks key .method {} (params self)
  else if ← atNamedField lenient then
    let isOptional ← if (← context).typed then eat .question else pure false
    some <$> field self { marks with isOptional } key
  else return none

def MemberMarks.fault? (marks : MemberMarks) (hasParent : Bool) : String → Option Cause
  | "abstract" =>
    if marks.isAbstract then some (.modifierSeen "abstract")
    else if marks.isOverride then some (.modifierOrder "abstract" "override")
    else if marks.readonly?.isSome then some (.modifierOrder "abstract" "readonly")
    else none
  | "override" =>
    if marks.isOverride then some (.modifierSeen "override")
    else if marks.readonly?.isSome then some (.modifierOrder "override" "readonly")
    else if marks.declare?.isSome then some (.modifierConflict "override" "declare")
    else if !hasParent then some .overrideWithoutParent
    else none
  | "readonly" => if marks.readonly?.isSome then some (.modifierSeen "readonly") else none
  | _ =>
    if marks.isStatic then some (.modifierSeen "static")
    else if marks.isOverride then some (.modifierOrder "static" "override")
    else none

def MemberMarks.add (marks : MemberMarks) (pos : Nat) : String → MemberMarks
  | "abstract" => { marks with isAbstract := true, last? := some pos }
  | "override" => { marks with isOverride := true, last? := some pos }
  | "readonly" => { marks with readonly? := marks.readonly? <|> some pos, last? := some pos }
  | _ => { marks with isStatic := true, last? := some pos }

def atStaticBlock : Parse Bool := do
  return (← isWord "static") && (← lookToken) == .punct .braceL

def laterMarks (marks : MemberMarks) : Parse MemberMarks :=
  loop marks fun marks => do
    if ← atStaticBlock then return .inr marks
    let pos ← here
    match ← modifier? ["abstract", "readonly", "override", "static"] with
    | none => return .inr marks
    | some name =>
      if let some cause := marks.fault? (← context).hasParent name then record pos cause
      return .inl (marks.add pos name)

def staticBlock (self : Self) (start : Nat) : Parse ReadMember := do
  let body ← inContext ({ · with inStaticBlock := true, inClassField := true })
    (block self false)
  return { member? := some (.staticBlock body (← spanFrom start)) }

def eatAccess : Parse Bool := do
  let pos ← here
  match ← modifier? ["public", "protected", "private", "in", "out"] with
  | none => return false
  | some name =>
    if name == "in" || name == "out" then
      record pos (.modifierOfTypeOwner name)
      return false
    return true

structure ConstructorParam where
  pattern : Pattern
  field? : Option Span := none

def ConstructorParam.toPattern (param : ConstructorParam) : Pattern :=
  match param.field? with
  | some span => .unsupported "parameter property" span
  | none => param.pattern

def constructorParam (self : Self) : Parse ConstructorParam := do
  let start ← here
  if ← eat .dots then
    let inner ← self.binding
    if (← context).typed then TypeNotation.annotation self
    return { pattern := .rest inner (← spanFrom start) }
  let hasAccess ← eatAccess
  let overrides ← modifier? ["override"]
  let constant ← modifier? ["readonly"]
  let pattern ← formalParam self
  if !hasAccess && overrides.isNone && constant.isNone then return { pattern }
  match pattern with
  | .ident _ | .initialized .. => return { pattern, field? := some (← spanFrom start) }
  | other => failAt other.span .parameterPropertyPattern

def constructorTypeParams (self : Self) : Parse Unit := do
  let start ← here
  if (← look (do advance; TypeNotation.closesAngle)).getD false then
    advance
    let close ← here
    TypeNotation.expectAngle '>'
    record start .typeParametersMissing
    record close .typeParametersOnConstructor
  else
    let starts ← TypeNotation.params self TypeNotation.ofFunction
    starts.forM (record · .typeParametersOnConstructor)

def ConstructorParam.checkSignature (param : ConstructorParam) : Parse Unit := do
  if let some span := param.field? then record span.lo .parameterProperty

def constructorMember (self : Self) (marks : MemberMarks) : Parse ReadMember := do
  let typed := (← context).typed
  if typed && marks.isOverride then record marks.start (.modifierOnConstructor "override")
  if typed && (← isAt .lt) then constructorTypeParams self
  expect .parenL
  let params ← paramList ConstructorParam.pattern (constructorParam self)
  let patterns := params.map ConstructorParam.toPattern
  expect .parenR
  if typed then
    if ← eat .colon then
      let pos ← here
      self.type
      record pos .annotationOnConstructor
  let body ← functionBody self {} patterns
  if body matches .absent then
    params.forM ConstructorParam.checkSignature
    if typed then params.forM fun param => checkSignatureValue param.pattern
  if let some pos := marks.static? then record pos (.modifierOnConstructor "static")
  if marks.isAbstract then
    if let some pos := marks.last? then record pos .abstractNotHere
  return { member? := some (.constructor (.mk (patterns.map Pattern.toParam) body (← spanFrom marks.start))) }

def asyncMember (self : Self) (marks : MemberMarks) : Parse ReadMember := do
  let pos ← here
  let overrides := (← modifier? ["override"]).isSome
  if overrides then record pos (.modifierOrder "override" "async")
  let isGenerator ← eat .star
  let key ← memberKey self
  if key.isConstructor then failFrom key.pos .asyncConstructor
  if marks.readonly?.isSome then record marks.start .readonlyMethod
  if (← context).typed then
    let _ ← eat .question
  method self marks key .method { isAsync := true, isGenerator } (params self)

def accessorMember (self : Self) (marks : MemberMarks) (isGetter : Bool) (pos : Nat) :
    Parse ReadMember := do
  let key ← memberKey self
  if marks.readonly?.isSome then record pos .readonlyAccessor
  if key.isConstructor then record pos .accessorConstructor
  if isGetter then method self marks key .getter {} (getterParams self pos)
  else method self marks key .setter {} (setterParams self pos)

def generatorMember (self : Self) (marks : MemberMarks) : Parse ReadMember := do
  expect .star
  let key ← memberKey self
  if marks.readonly?.isSome then record marks.start .readonlyMethod
  if key.isConstructor then record marks.start .generatorConstructor
  method self marks key .method { isGenerator := true } (params self)

def keyedMember (self : Self) (marks : MemberMarks) : Parse ReadMember := do
  let typed := (← context).typed
  let key ← match marks.readonly?, ← token with
    | some pos, .punct .bang | some pos, .punct .colon =>
      pure { key := .named "readonly", pos : MemberKey }
    | _, _ => memberKey self
  let isOptional ← if typed then eat .question else pure false
  let marks := { marks with isOptional }
  if ← atMethod then
    if let some pos := marks.declare? then record pos .declareNotHere
    if marks.readonly?.isSome then failFrom marks.start .readonlyMethod
    if key.isConstructor then return ← constructorMember self marks
    return ← method self marks key .method {} (params self)
  let onNextLine ← newlineBefore
  let isAccessor := (key.word? == some "get" || key.word? == some "set") &&
    !(← atField false) && !(onNextLine && (← isAt .star))
  if !isAccessor && (← atField true) then return ← field self marks key
  if key.word? == some "async" && !onNextLine then return ← asyncMember self marks
  if isAccessor then return ← accessorMember self marks (key.word? == some "get") key.pos
  failUnexpected "* for generator, private key, identifier or async"

def classMember (self : Self) : Parse ReadMember := do
  let start ← here
  let typed := (← context).typed
  let declared ← if typed then eatWord "declare" else pure false
  let accessPos ← here
  let hasAccess ← eatAccess
  let afterAccess ← here
  let declarePos := if !declared then afterAccess
    else if afterAccess == accessPos then start else accessPos
  let declared ← if typed && !declared then eatWord "declare" else pure declared
  let marks : MemberMarks := { start, hasAccess }
  if declared then
    if let some member ← namedMember? self marks "declare" true then return member
  let marks := { marks with declare? := if declared then some declarePos else none }
  let staticPos ← here
  let isStatic ← eatWord "static"
  let accessorMarked ← if typed then eatWord "accessor" else pure false
  if isStatic then
    if let some member ← namedMember? self marks "static" false then return member
  let marks := { marks with isStatic, static? := if isStatic then some staticPos else none }
  if accessorMarked then
    if let some member ← namedMember? self marks "accessor" true then return member
  let marks ← laterMarks marks
  let accessorMarked ←
    if typed && !accessorMarked then eatWord "accessor" else pure accessorMarked
  let marks := { marks with isAccessor := accessorMarked }
  if marks.isStatic && (← isAt .braceL) then
    if let some pos := marks.declare? then record pos .modifierNotHere
    if marks.hasAccess then record (← here) .modifierNotHere
    return ← staticBlock self start
  if ← atStaticBlock then
    if let some pos := marks.last? then record pos .modifierNotHere
    if let some pos := marks.static? then record pos .modifierNotHere
    advance
    return ← staticBlock self start
  if typed && !marks.isAbstract && !marks.isOverride && !marks.hasAccess then
    if ← TypeNotation.atIndexSignature then
      TypeNotation.indexSignature self
      return { member? := none }
  if ← isAt .star then generatorMember self marks else keyedMember self marks

def ClassMember.isImplementedConstructor : ClassMember → Bool
  | .constructor body => body.hasBody
  | _ => false

structure ClassBody where
  members : List ClassMember := []
  abstracts : List Nat := []

def classBody (self : Self) : Parse ClassBody :=
  loop ({} : ClassBody) fun found => do
    if ← eat .semi then return .inl found
    if (← isAt .braceR) || (← isEnd) then return .inr found
    let start ← here
    let read ← inContext ({ · with allowSuper := true }) (classMember self)
    let abstracts := read.abstract?.toList ++ found.abstracts
    match read.member? with
    | none => return .inl { found with abstracts }
    | some member =>
      if !(← context).ambient && member.isImplementedConstructor &&
          found.members.any ClassMember.isImplementedConstructor then
        record start .duplicateConstructor
      return .inl ⟨member :: found.members, abstracts⟩

def parentClass (self : Self) : Parse Expr := do
  match ← self.leftHand with
  | .typed .instantiation inner _ => return inner
  | parent =>
    if (← context).typed then TypeNotation.optionalArgs self
    return parent

def reservedTypeNames : List String :=
  ["string", "null", "number", "object", "any", "unknown", "boolean", "bigint", "symbol", "void",
   "never", "intrinsic"]

structure ClassParts where
  name? : Option Ident
  parent? : Option Expr
  members : List ClassMember
  span : Span

def classHead (self : Self) : Parse (Option Expr) := do
  let typed := (← context).typed
  let parent? ←
    if ← eatWord "extends" then
      let parent ← parentClass self
      if typed then
        if ← eat .comma then
          let others ← self.heritage
          others.forM (record · .severalParents)
      pure (some parent)
    else pure none
  let again ← here
  if ← eatWord "extends" then
    record again .secondExtends
    let _ ← parentClass self
  unless typed do return parent?
  if ← eatWord "implements" then
    let _ ← self.heritage
  let again ← here
  if ← eatWord "implements" then
    record again .secondImplements
    let _ ← self.heritage
  let again ← here
  if ← eatWord "extends" then
    record again .secondImplements
    let late ← parentClass self
    return parent? <|> some late
  return parent?

def classParts (self : Self) (start : Nat) (isAbstract : Bool)
    (readName : Parse (Option Ident)) : Parse ClassParts :=
  inContext ({ · with strict := true, inClass := true }) do
    expectWord "class"
    let name? ← readName
    let typed := (← context).typed
    if let some id := name? then
      if typed && reservedTypeNames.contains id.name then record id.span.lo .invalidClassName
    if typed then TypeNotation.optionalParams self ⟨true, true⟩
    let parent? ← classHead self
    expect .braceL
    let body ← inContext ({ · with hasParent := parent?.isSome }) (classBody self)
    if ← isEnd then record (← here) (.expected "\x7d" "<eof>") else expect .braceR
    unless isAbstract do body.abstracts.reverse.forM (record · .abstractOutside)
    return ⟨name?, parent?, body.members.reverse, ← spanFrom start⟩

end Seepage.Script
