set_option autoImplicit false

namespace Seepage.Document

inductive Value where
  | null
  | boolean (value : Bool)
  | integer (value : Int)
  | float (text : String)
  | string (value : String)
  | datetime
  | array (elements : List Value)
  | table (fields : List (String × Value))
deriving Repr, Inhabited

namespace Value

def natural (value : Nat) : Value :=
  .integer value

def optional (text : Option String) : Value :=
  match text with
  | some text => .string text
  | none => .null

end Value

def optionalField (name : String) (text : Option String) : List (String × Value) :=
  text.toList.map fun text => (name, .string text)

end Seepage.Document
