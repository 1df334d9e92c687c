import Seepage.Script.Lexer

set_option autoImplicit false

namespace Seepage.Script

structure State where
  lexeme : Lexeme
  lastEnd : Nat
  textEnd : Nat
  faults : List Fault
  context : Context
  arrowStart? : Option Nat := none
  lastCommas : List (Nat × Nat) := []
deriving Inhabited

structure Failure where
  cause : Cause
  span : Span
deriving Inhabited

def Failure.fault (failure : Failure) : Fault :=
  ⟨failure.cause, failure.span.lo⟩

abbrev Parse := ExceptT Failure (StateM State)

namespace Parse

variable {α β : Type}

def token : Parse Token := do
  return (← get).lexeme.token

def here : Parse Nat := do
  return (← get).lexeme.span.lo

def lastEnd : Parse Nat := do
  return (← get).lastEnd

def spanFrom (start : Nat) : Parse Span := do
  return ⟨start, (← get).lastEnd⟩

def context : Parse Context := do
  return (← get).context

def newlineBefore : Parse Bool := do
  return (← get).lexeme.newline

def heeds (context : Context) (remark : Remark) : Bool :=
  !context.quiet && match remark.extent with
    | .allCode => true
    | .strictCode => context.strict
    | .moduleCode => context.moduleGoal

def install (lexeme : Lexeme) : Parse Unit :=
  modify fun state =>
    let remarks := lexeme.remarks.filter (heeds state.context)
    { state with
      lexeme := if lexeme.token = .eof then
        { lexeme with span := ⟨state.lastEnd, state.lastEnd⟩, newline := true } else lexeme
      faults := remarks.reverse.map Remark.fault ++ state.faults }

def moveTo (text : List Char) (pos : Nat) (newline : Bool) : Parse Unit := do
  install (Lexer.next (← context) (text.length + 1) text pos none newline [])

def advance : Parse Unit := do
  let lexeme := (← get).lexeme
  modify ({ · with lastEnd := lexeme.span.hi })
  unless lexeme.stuck do moveTo lexeme.rest lexeme.span.hi false

def push (fault : Fault) : Parse Unit :=
  modify fun state => { state with faults := fault :: state.faults }

def recordFault (fault : Fault) : Parse Unit := do
  unless (← context).quiet do
    if let .invalid first ← token then
      advance
      push first
    push fault

def record (pos : Nat) (cause : Cause) : Parse Unit :=
  recordFault ⟨cause, pos⟩

def recordStrict (pos : Nat) (cause : Cause) : Parse Unit := do
  let context ← context
  if context.strict && !context.quiet then push ⟨cause, pos⟩

def failAt (span : Span) (cause : Cause) : Parse α := do
  if let .invalid first ← token then
    advance
    recordFault first
  throw ⟨cause, span⟩

def failFrom (start : Nat) (cause : Cause) : Parse α := do
  failAt (← spanFrom start) cause

def fail (cause : Cause) : Parse α := do
  failAt (← get).lexeme.span cause

def throwFault (fault : Fault) : Parse α :=
  throw ⟨fault.cause, ⟨fault.pos, fault.pos⟩⟩

def failEnd : Parse α := do
  throwFault ⟨.unexpectedEnd, (← get).textEnd⟩

def attempt (reading : Parse α) : Parse (Option α) := fun state =>
  let quiet := { state with context := { state.context with quiet := true } }
  match reading quiet with
  | (.ok value, after) => (.ok (some value), { after with context := state.context })
  | (.error _, _) => (.ok none, state)

def look (reading : Parse α) : Parse (Option α) := fun state =>
  match reading { state with context := { state.context with quiet := true } } with
  | (.ok value, _) => (.ok (some value), state)
  | (.error _, _) => (.ok none, state)

def caught (reading : Parse α) : Parse (Except Failure α) := fun state =>
  let (result, after) := reading state
  (.ok result, { after with context := state.context })

def lookToken : Parse Token := do
  return ((← look (do advance; token)).getD .eof)

def lookTokenOnLine : Parse Token := do
  let next ← look (do advance; return (← token, ← newlineBefore))
  match next with
  | some (token, false) => return token
  | _ => return .eof

def inContext (change : Context → Context) (reading : Parse α) : Parse α := do
  let outer ← context
  modify fun state => { state with context := change state.context }
  let value ← reading
  modify ({ · with context := outer })
  return value

def allowingIn (reading : Parse α) : Parse α :=
  inContext ({ · with allowIn := true }) reading

def isAt (punct : Punct) : Parse Bool := do
  return (← token) == .punct punct

def isWord (name : String) : Parse Bool := do
  return (← token) == .word name

def isEnd : Parse Bool := do
  return (← token) == .eof

def eat (punct : Punct) : Parse Bool := do
  if ← isAt punct then advance; return true
  else return false

def eatWord (name : String) : Parse Bool := do
  if ← isWord name then advance; return true
  else return false

def eatOnLine (punct : Punct) : Parse Bool := do
  if ← newlineBefore then return false else eat punct

def eatWordOnLine (name : String) : Parse Bool := do
  if ← newlineBefore then return false else eatWord name

def eatSign : Parse Bool := do
  if ← eat .plus then return true else eat .minus

def failExpecting (wanted : String) : Parse α := do
  fail (.expected wanted (← get).lexeme.description)

def failUnexpected (wanted : String) : Parse α := do
  fail (.unexpected (← get).lexeme.description wanted)

def expect (punct : Punct) : Parse Unit := do
  unless ← eat punct do failExpecting punct.text

def expectWord (name : String) : Parse Unit := do
  unless ← eatWord name do failExpecting name

def atStatementEnd : Parse Bool := do
  match ← token with
  | .eof | .punct .semi | .punct .braceR => return true
  | _ => newlineBefore

def eatSemicolon : Parse Bool := do
  if ← eat .semi then return true
  else atStatementEnd

def expectSemicolon : Parse Unit := do
  unless ← eatSemicolon do failExpecting ";"

def expectMore : Parse Unit := do
  if ← isEnd then failEnd

def expectToken : Parse Unit := do
  match ← token with
  | .eof => failEnd
  | .invalid fault => advance; throwFault fault
  | _ => return

-- Repeats a step that either ends the loop with a result or goes on. Every round must read
-- something, so the text's length bounds the rounds.
def loopFuel (step : α → Parse (α ⊕ β)) : Nat → α → Parse β
  | 0, _ => fail .tooDeep
  | fuel + 1, value => do
    match ← step value with
    | .inl next => loopFuel step fuel next
    | .inr result => return result

def loop (init : α) (step : α → Parse (α ⊕ β)) : Parse β := do
  loopFuel step ((← get).lexeme.text.length + 2) init

def collect (step : Parse (Option α)) : Parse (List α) := do
  let found ← loop (β := List α) [] fun found => do
    match ← step with
    | some value => return .inl (value :: found)
    | none => return .inr found
  return found.reverse

def word? : Parse (Option String) := do
  return (← token).name?

def atWord : Parse Bool := do
  return (← word?).isSome

end Parse

end Seepage.Script
