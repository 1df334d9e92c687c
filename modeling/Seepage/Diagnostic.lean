import Seepage.Tree.Arena

set_option autoImplicit false

namespace Seepage

inductive Severity where
  | error
  | warning
  | info
  | hint
deriving DecidableEq, Repr, Inhabited

def Severity.label : Severity → String
  | .error => "error"
  | .warning => "warning"
  | .info => "info"
  | .hint => "hint"

inductive Concern where
  | unresolved
  | unreachable
  | recoveredSyntax
  | opaqueRead
deriving DecidableEq, Repr, Inhabited

def Concern.code : Concern → String
  | .unresolved => "M001"
  | .unreachable => "M002"
  | .recoveredSyntax => "M003"
  | .opaqueRead => "M004"

structure Diagnostic where
  concern : Concern
  severity : Severity
  message : String
  file : String
  line : Nat
  column : Nat
  suggestion : Option String := none
deriving DecidableEq, Repr, Inhabited

namespace Diagnostic

def atNode (arena : Arena) (id : Nat) (concern : Concern) (severity : Severity)
    (message : String) : Diagnostic :=
  let place := arena.place id
  { concern, severity, message, file := arena.file, line := place.line, column := place.column }

def text (diagnostic : Diagnostic) : String :=
  diagnostic.file ++ ":" ++ toString diagnostic.line ++ ":" ++ toString diagnostic.column ++ ": " ++
    diagnostic.severity.label ++ " [" ++ diagnostic.concern.code ++ "] " ++ diagnostic.message

end Diagnostic

end Seepage
