import Seepage.Script.Grammar.Goal

set_option autoImplicit false

namespace Seepage.Script

namespace Parse

def refers (context : Context) : Token → Bool
  | .word name => !context.isReserved name
  | .escapedName _ => true
  | _ => false

def atReference : Parse Bool := do
  return refers (← context) (← token)

def anyName : Parse Ident := do
  let lexeme := (← get).lexeme
  match lexeme.token.name? with
  | some name => advance; return ⟨name, lexeme.span⟩
  | none => expectMore; fail .identExpected

def identifier : Parse Ident := do
  let keyword := (← token) matches .word _
  let id ← anyName
  let pos := id.span.lo
  let context ← context
  unless keyword do return id
  if id.name == "enum" then record pos (.reservedInStrict id.name)
  if strictReserved.contains id.name then recordStrict pos (.reservedInStrict id.name)
  if id.name == "arguments" && context.inClassField then record pos .argumentsInField
  if id.name == "await" then
    if context.ambient then return id
    if context.inStaticBlock then failFrom pos .identExpected
    if context.moduleGoal || context.inAsync then failFrom pos .awaitAsName
  else if keywords.contains id.name && !(id.name == "this" && context.typed) then
    failFrom pos .identExpected
  return id

def isEvalOrArguments (name : String) : Bool :=
  name == "eval" || name == "arguments"

def bindingName (letAllowed : Bool) : Parse Ident := do
  if !letAllowed && (← isWord "let") then
    failUnexpected "let is reserved in const, let, class declaration"
  let id ← identifier
  let context ← context
  if isEvalOrArguments id.name then recordStrict id.span.lo .bindingOfEval
  if id.name == "await" && (context.inAsync || context.inStaticBlock) then
    failAt id.span .identExpected
  if id.name == "yield" && context.inGenerator then failAt id.span .identExpected
  return id

def bindingName? (letAllowed : Bool) : Parse (Option Ident) := do
  let isThis := (← context).typed && (← isWord "this")
  if isThis || (← atReference) then return some (← bindingName letAllowed)
  return none

def privateName : Parse Ident := do
  let start ← here
  expect .hash
  if (← here) ≠ (← lastEnd) then failFrom start .blankAfterHash
  let id ← anyName
  return ⟨"#" ++ id.name, ⟨start, id.span.hi⟩⟩

def memberName : Parse Ident := do
  if ← isAt .hash then privateName else anyName

end Parse

end Seepage.Script
