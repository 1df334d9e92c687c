import Seepage.Script.Grammar.Name

set_option autoImplicit false

namespace Seepage.Script

open Parse

structure TemplateParts (α : Type) where
  raw : String
  substitutions : List α
  span : Span

namespace Template

def takePiece (tagged : Bool) (piece : TemplatePiece) : Parse Unit := do
  advance
  if let some fault := piece.fault? then
    unless tagged do throwFault fault

def resume : Parse Unit := do
  let lexeme := (← get).lexeme
  let start := lexeme.span.lo
  let scanned := scanTemplate lexeme.rest start
  install { lexeme with
    token := scanned.token
    span := ⟨start, posAt lexeme.text scanned.rest start⟩
    rest := scanned.rest
    remarks := scanned.remarks }

def pieces {α : Type} (tagged : Bool) (substitution : Parse α) : Parse (List α) := do
  let found ← loop (β := List α) [] fun found => do
    let value ← substitution
    unless ← isAt .braceR do failExpecting "\x7d"
    resume
    match ← token with
    | .template piece =>
      takePiece tagged piece
      let found := value :: found
      return if piece.last then .inr found else .inl found
    | _ => expectToken; fail .unterminatedTemplate
  return found.reverse

def read {α : Type} (tagged : Bool) (substitution : Parse α) : Parse (TemplateParts α) := do
  let start ← here
  match ← token with
  | .template piece =>
    if piece.last then
      if let some fault := piece.fault? then
        unless tagged do throwFault fault
      advance
      return ⟨piece.raw, [], ← spanFrom start⟩
    takePiece tagged piece
    let substitutions ← pieces tagged substitution
    return ⟨piece.raw, substitutions, ← spanFrom start⟩
  | _ => expectToken; fail .expressionExpected

end Template

end Seepage.Script
