import Seepage.Document.Value

set_option autoImplicit false

namespace Seepage.Document

def hexDigit (value : Nat) : Char :=
  (Nat.digitChar value).toLower

def escapeChar (c : Char) : List Char :=
  match c with
  | '\"' => ['\\', '\"']
  | '\\' => ['\\', '\\']
  | '\n' => ['\\', 'n']
  | '\r' => ['\\', 'r']
  | '\t' => ['\\', 't']
  | '\x08' => ['\\', 'b']
  | '\x0c' => ['\\', 'f']
  | c =>
    if c.toNat < 32 then ['\\', 'u', '0', '0', hexDigit (c.toNat / 16), hexDigit (c.toNat % 16)]
    else [c]

def quote (text : String) : String :=
  .ofList ('\"' :: text.toList.flatMap escapeChar ++ ['\"'])

def newLine (depth : Nat) : String :=
  .ofList ('\n' :: List.replicate (2 * depth) ' ')

def bracket (opening closing : String) (depth : Nat) (items : List String) : String :=
  match items with
  | [] => opening ++ closing
  | items =>
    let lines := items.map (newLine (depth + 1) ++ ·)
    opening ++ String.intercalate "," lines ++ newLine depth ++ closing

mutual

def Value.prettyAt (depth : Nat) : Value → String
  | .null => "null"
  | .boolean value => if value then "true" else "false"
  | .integer value => toString value
  | .float text => text
  | .string value => quote value
  | .datetime => "null"
  | .array elements => bracket "[" "]" depth (prettyElements (depth + 1) elements)
  | .table fields => bracket "\x7b" "\x7d" depth (prettyFields (depth + 1) fields)

def prettyElements (depth : Nat) : List Value → List String
  | [] => []
  | value :: rest => value.prettyAt depth :: prettyElements depth rest

def prettyFields (depth : Nat) : List (String × Value) → List String
  | [] => []
  | (name, value) :: rest =>
    (quote name ++ ": " ++ value.prettyAt depth) :: prettyFields depth rest

end

def Value.pretty (value : Value) : String :=
  value.prettyAt 0 ++ "\n"

end Seepage.Document
