import Seepage.Script.Fault
import Seepage.Script.Punct
import Seepage.Script.Syntax

set_option autoImplicit false

namespace Seepage.Script

inductive Extent where
  | allCode
  | strictCode
  | moduleCode
deriving DecidableEq, Repr, Inhabited

structure Remark where
  fault : Fault
  extent : Extent := .allCode
deriving DecidableEq, Repr, Inhabited

structure TemplatePiece where
  raw : String
  fault? : Option Fault
  last : Bool
deriving DecidableEq, Repr, Inhabited

inductive Token where
  | eof
  | word (name : String)
  | escapedName (name : String)
  | punct (punct : Punct)
  | string (value : String)
  | number (text : String)
  | bigInt (text : String)
  | template (piece : TemplatePiece)
  | regex (pattern flags : String)
  | invalid (fault : Fault)
deriving DecidableEq, Repr, Inhabited

structure Lexeme where
  token : Token
  span : Span
  newline : Bool
  text : List Char
  rest : List Char
  remarks : List Remark
  stuck : Bool := false
deriving Inhabited

namespace Lexeme

def raw (lexeme : Lexeme) : String :=
  .ofList (lexeme.text.take (lexeme.text.length - lexeme.rest.length))

def description (lexeme : Lexeme) : String :=
  let literal (kind value : String) : String :=
    kind ++ " literal (" ++ value ++ ", " ++ lexeme.raw ++ ")"
  match lexeme.token with
  | .eof => "<eof>"
  | .word name | .escapedName name => name
  | .punct p => p.text
  | .string value => literal "string" value
  | .number text => literal "numeric" text
  | .bigInt text => literal "bigint" text
  | .template piece => "template token (" ++ piece.raw ++ ")"
  | .regex pattern flags => "regexp literal (" ++ pattern ++ ", " ++ flags ++ ")"
  | .invalid _ => "<lexing error>"

end Lexeme

def Token.name? : Token → Option String
  | .word name | .escapedName name => some name
  | _ => none

end Seepage.Script
