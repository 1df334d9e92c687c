set_option autoImplicit false

namespace Seepage.Document.Toml

inductive Cause where
  | duplicateKey (key : String) (table : Option (List String))
  | extendsValue (path : List String) (kind : String)
  | outOfRange
  | tooLarge
  | tooSmall
  | tooDeep
deriving DecidableEq, Repr, Inhabited

def Cause.message : Cause → String
  | .duplicateKey key none => "duplicate key `" ++ key ++ "`"
  | .duplicateKey key (some []) => "duplicate key `" ++ key ++ "` in document root"
  | .duplicateKey key (some path) =>
    "duplicate key `" ++ key ++ "` in table `" ++ String.intercalate "." path ++ "`"
  | .extendsValue path kind =>
    "dotted key `" ++ String.intercalate "." path ++ "` attempted to extend non-table type (" ++
      kind ++ ")"
  | .outOfRange => "value is out of range"
  | .tooLarge => "number too large to fit in target type"
  | .tooSmall => "number too small to fit in target type"
  | .tooDeep => "recursion limit exceeded"

structure Fault where
  subject : Option String := none
  expected : List String := []
  cause : Option Cause := none
  isFinal : Bool := true
deriving DecidableEq, Repr, Inhabited

namespace Fault

def message (fault : Fault) : String :=
  String.intercalate "\n" (
    (fault.subject.toList.map ("invalid " ++ ·)) ++
    (if fault.expected.isEmpty then []
      else ["expected " ++ String.intercalate ", " fault.expected]) ++
    fault.cause.toList.map Cause.message)

def within (subject : Option String) (expected : List String) (fault : Fault) : Fault :=
  { fault with
    subject := fault.subject.or subject
    expected := fault.expected ++ expected }

def final (fault : Fault) : Fault :=
  { fault with isFinal := true }

def miss (subject : Option String) (expected : List String) : Fault :=
  { subject, expected, isFinal := false }

end Fault

end Seepage.Document.Toml
