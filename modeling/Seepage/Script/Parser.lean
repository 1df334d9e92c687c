import Seepage.Script.Grammar.Module

set_option autoImplicit false

namespace Seepage.Script

open Parse

def step (self : Self) : (goal : Goal) → Parse goal.Result
  | .expr => expression self
  | .assign => assign self
  | .unary => unary self
  | .binary => binary self
  | .operators left least => operators self left least
  | .newOperand => memberOrNew self
  | .leftHand => leftHand self
  | .object => objectLiteral self
  | .stmt declarations => stmt self declarations
  | .item => item self
  | .binding letAllowed => binding self letAllowed
  | .params => params self
  | .asPattern use expr => patternOf self use expr
  | .heritage => heritage self
  | .type => TypeNotation.type self
  | .plainType => TypeNotation.plain self
  | .typeOperand => TypeNotation.operand self

def read : Nat → (goal : Goal) → Parse goal.Result
  | 0, _ => fail .tooDeep
  | fuel + 1, goal => step (read fuel) goal

def shebangLength : List Char → Nat
  | '#' :: '!' :: rest => 2 + (rest.takeWhile fun c => !Text.isLineBreak c).length
  | _ => 0

def items (self : Self) : Parse (List Stmt) :=
  collect do
    if ← isEnd then return none
    if (← context).moduleGoal then return some (← self.item)
    return some (← self.stmt true)

def program (fuel : Nat) (text : List Char) : Parse Program := do
  let shebang := shebangLength text
  let afterShebang := 1 + byteLength (text.take shebang)
  modify ({ · with lastEnd := afterShebang })
  moveTo (text.drop shebang) afterShebang true
  let first ← here
  let start := if shebang > 0 || (← isEnd) then 1 else first
  let strict ← atUseStrict
  modify fun state =>
    { state with context := { state.context with strict := state.context.strict || strict } }
  let body ← items (read fuel)
  return ⟨body, ← spanFrom start⟩

structure Attempt where
  result : Except Fault Program
  recorded : List Fault

def parseWith (typed moduleGoal : Bool) (text : List Char) : Attempt :=
  let initial : State :=
    { (default : State) with
      context := { typed, moduleGoal, strict := moduleGoal, allowIn := false }
      faults := []
      lastEnd := 1
      textEnd := 1 + byteLength text }
  let (result, final) := program (16 * text.length + 64) text initial
  ⟨result.mapError Failure.fault, final.faults.reverse⟩

structure Parsed where
  program? : Option Program
  faults : List Fault

def parse (typed : Bool) (text : List Char) : Parsed :=
  let asModule := parseWith typed true text
  match asModule.result with
  | .ok program => ⟨some program, asModule.recorded⟩
  | .error moduleFault =>
    let asScript := parseWith typed false text
    match asScript.result with
    | .ok program => ⟨some program, asScript.recorded⟩
    | .error scriptFault => ⟨none, asScript.recorded ++ [moduleFault, scriptFault]⟩

end Seepage.Script
