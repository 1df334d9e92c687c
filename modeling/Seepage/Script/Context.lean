set_option autoImplicit false

namespace Seepage.Script

structure Context where
  typed : Bool
  moduleGoal : Bool
  strict : Bool
  topLevel : Bool := true
  allowIn : Bool := true
  inFunction : Bool := false
  inAsync : Bool := false
  inGenerator : Bool := false
  inParameters : Bool := false
  inClass : Bool := false
  inClassField : Bool := false
  inStaticBlock : Bool := false
  hasParent : Bool := false
  allowSuper : Bool := false
  inPlainFunction : Bool := false
  breakAllowed : Bool := false
  continueAllowed : Bool := false
  labels : List String := []
  ambient : Bool := false
  inConditional : Bool := false
  -- Between the `?` and the `:` of a conditional expression.
  colonPending : Bool := false
  forHead : Bool := false
  forAwaitHead : Bool := false
  -- `extends` does not begin a conditional type.
  plainTypes : Bool := false
  -- Nothing is recorded, because the reading may be taken back.
  quiet : Bool := false
deriving Inhabited

def keywords : List String :=
  ["break", "case", "catch", "class", "const", "continue", "debugger", "default", "delete", "do",
   "else", "export", "extends", "false", "finally", "for", "function", "if", "import", "in",
   "instanceof", "new", "null", "return", "super", "switch", "this", "throw", "true", "try",
   "typeof", "var", "void", "while", "with"]

def strictReserved : List String :=
  ["yield", "let", "static", "implements", "interface", "package", "private", "protected",
   "public"]

def Context.isReserved (context : Context) (name : String) : Bool :=
  keywords.contains name || name == "enum" ||
    (name == "await" && (context.inAsync || context.inStaticBlock || context.strict)) ||
    (name == "yield" && context.inGenerator) ||
    (context.strict && strictReserved.contains name)

end Seepage.Script
