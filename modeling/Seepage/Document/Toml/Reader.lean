import Seepage.Document.Toml.Scalar
import Seepage.Document.Toml.Table

set_option autoImplicit false

namespace Seepage.Document.Toml

def noValue : Fault :=
  .miss (some "string") ["`\"`", "`'`"]

def readWord (word : String) (value : Value) (text : List Char) :
    Except Fault (Value × List Char) :=
  if word.toList.isPrefixOf text then .ok (value, text.drop word.length) else .error noValue

def splitKey (first : String) (others : List String) : List String × String :=
  ((first :: others).dropLast, others.getLast?.getD first)

def inlineCause : Cause → Cause
  | .extendsValue path "inline table" => .duplicateKey (path.getLast?.getD "") none
  | cause => cause

def inlineTable : Items → List (List String × String × Value) → Except Cause Items
  | items, [] => .ok items
  | items, (path, key, value) :: rest => do
    inlineTable (← (addValue none path key value .header items).mapError inlineCause) rest

def expectEquals : List Char → Except Fault (List Char)
  | '=' :: rest => .ok rest
  | _ => .error { expected := ["`.`", "`=`"] }

mutual

def readValue : Nat → Nat → List Char → Except Fault (Value × List Char)
  | 0, _, _ => .error (.miss none [])
  | fuel + 1, depth, text =>
    match text with
    | [] => .error (.miss none [])
    | c :: rest =>
      if c = '\"' || c = '\'' then do
        let (value, rest) ← readString text
        return (.string value, rest)
      else if (c = '[' || c = '\x7b') && depthLimit ≤ depth + 1 then
        .error { cause := some .tooDeep }
      else if c = '[' then do
        let (elements, rest) ← readElements fuel (depth + 1) rest
        match skipTrivia rest with
        | ']' :: rest => return (.array elements, rest)
        | _ => .error { subject := some "array", expected := ["`]`"] }
      else if c = '\x7b' then do
        let (pairs, rest) ← readPairs fuel (depth + 1) rest
        match inlineTable [] pairs with
        | .error cause => .error { cause := some cause }
        | .ok items =>
          match skipBlanks rest with
          | '\x7d' :: rest => return (.table (fieldsOf items), rest)
          | _ => .error { subject := some "inline table", expected := ["`\x7d`"] }
      else if c.isDigit || c = '+' || c = '-' then readNumeric text
      else if c = '_' then (readDecimal false text).mapError (Fault.within none ["leading digit"])
      else if c = '.' then
        .error (.miss (some "floating-point number") ["leading digit"])
      else if c = 't' then commit (readWord "true" (.boolean true) text)
      else if c = 'f' then commit (readWord "false" (.boolean false) text)
      else if c = 'i' then readWord "inf" (.float "inf") text
      else if c = 'n' then readWord "nan" (.float "NaN") text
      else .error noValue

def readElements : Nat → Nat → List Char → Except Fault (List Value × List Char)
  | 0, _, text => .ok ([], text)
  | fuel + 1, depth, text =>
    match readValue fuel depth (skipTrivia text) with
    | .error fault => if fault.isFinal then .error fault else .ok ([], text)
    | .ok (value, rest) =>
      match skipTrivia rest with
      | ',' :: rest => do
        let (others, rest) ← readElements fuel depth rest
        return (value :: others, rest)
      | rest => .ok ([value], rest)

def readPairs :
    Nat → Nat → List Char → Except Fault ((List (List String × String × Value)) × List Char)
  | 0, _, text => .ok ([], text)
  | fuel + 1, depth, text =>
    match readKey text with
    | .error fault => if fault.isFinal then .error fault else .ok ([], text)
    | .ok ((first, others), rest) => do
      let rest ← expectEquals rest
      let (value, rest) ← commit (readValue fuel depth (skipBlanks rest))
      let (path, key) := splitKey first others
      match skipBlanks rest with
      | ',' :: after =>
        match readPairs fuel depth after with
        | .ok ([], _) => return ([(path, key, value)], skipBlanks rest)
        | .ok (pairs, rest) => return ((path, key, value) :: pairs, rest)
        | .error fault => .error fault
      | rest => return ([(path, key, value)], rest)

end

def expectLineEnd (text : List Char) : Except Fault (List Char) :=
  match lineRest? text with
  | some rest => .ok rest
  | none => .error { expected := ["newline", "`#`"] }

def caused {α : Type} (result : Except Cause α) : Except Fault α :=
  result.mapError fun cause => { cause := some cause }

def readPair (progress : Progress) (text : List Char) : Except Fault (Progress × List Char) := do
  let ((first, others), rest) ← commit (readKey text)
  let rest ← expectEquals rest
  let (value, rest) ← commit (readValue (2 * text.length + 2) 0 (skipBlanks rest))
  let rest ← expectLineEnd rest
  let (path, key) := splitKey first others
  return (← caused (progress.add path key value), rest)

def readTableHeader (progress : Progress) (text : List Char) :
    Except Fault (Progress × List Char) := do
  let ((first, others), rest) ← commit (readKey text)
  match rest with
  | ']' :: rest =>
    let rest ← expectLineEnd rest
    return (← caused (progress.openTable (first :: others)), rest)
  | _ => .error { expected := ["`.`", "`]`"] }

def readArrayHeader (progress : Progress) (text : List Char) :
    Except Fault (Progress × List Char) := do
  let ((first, others), rest) ← commit (readKey text)
  match rest with
  | ']' :: ']' :: rest =>
    let rest ← expectLineEnd rest
    return (← caused (progress.openArray (first :: others)), rest)
  | _ => .error { expected := ["`.`", "`]]`"] }

def readHeader (progress : Progress) (text : List Char) : Except Fault (Progress × List Char) :=
  (match text with
    | '[' :: '[' :: rest => readArrayHeader progress rest
    | '[' :: c :: rest => readTableHeader progress (c :: rest)
    | _ => .error {}).mapError (Fault.within (some "table header") [])

def readLines : Nat → Progress → List Char → Except Fault Progress
  | 0, progress, _ => .ok progress
  | fuel + 1, progress, text =>
    match skipBlanks text with
    | [] => .ok progress
    | '\n' :: rest => readLines fuel progress rest
    | '\r' :: '\n' :: rest => readLines fuel progress rest
    | '\r' :: _ => .error {}
    | '#' :: rest =>
      match lineEnd? (rest.dropWhile isCommentChar) with
      | some rest => readLines fuel progress rest
      | none => .error {}
    | '[' :: rest => do
      let (progress, rest) ← readHeader progress ('[' :: rest)
      readLines fuel progress rest
    | text => do
      let (progress, rest) ← readPair progress text
      readLines fuel progress rest

def read (text : String) : Except String (List (String × Value)) :=
  let text := match text.toList with
    | '\ufeff' :: rest => rest
    | text => text
  (do
    let progress ← readLines (text.length + 1) {} text
    return fieldsOf (← caused progress.close)).mapError Fault.message

end Seepage.Document.Toml
