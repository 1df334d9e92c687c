import Seepage.Script.Parser
import Seepage.Text.Lines

set_option autoImplicit false

namespace Seepage.Script

inductive Language where
  | javaScript
  | typeScript
deriving DecidableEq, Repr, Inhabited

def Language.ofName (name : String) : Language :=
  let extension := ((name.splitOn ".").getLast?.getD "").toLower
  if ["ts", "mts", "cts"].contains extension then .typeScript else .javaScript

structure SyntaxError where
  line : Nat
  column : Nat
  message : String
deriving DecidableEq, Repr, Inhabited

def SyntaxError.text (error : SyntaxError) : String :=
  error.message ++ " at " ++ toString error.line ++ ":" ++ toString error.column

structure File where
  name : String
  language : Language
  lineCount : Nat
  lineStarts : List Nat
  program? : Option Program
  errors : List SyntaxError

def dropByteOrderMark : List Char → List Char
  | '\ufeff' :: rest => rest
  | text => text

def syntaxError (text : List Char) (fault : Fault) : SyntaxError :=
  let (line, column) := Text.displayPlace text (fault.pos - 1) 1 0
  ⟨line, column, fault.cause.message⟩

def File.read (name source : String) : File :=
  let language := Language.ofName name
  let text := dropByteOrderMark source.toList
  let parsed := parse (language == .typeScript) text
  { name
    language
    lineCount := Text.lineCount source.toList
    lineStarts := Text.lineStarts source.toList
    program? := parsed.program?
    errors := parsed.faults.map (syntaxError text) }

end Seepage.Script
