import Seepage.Decimal.Shortest
import Seepage.Document.Toml.Fault
import Seepage.Document.Value

set_option autoImplicit false

namespace Seepage.Document.Toml

def isBlank (c : Char) : Bool :=
  c == ' ' || c == '\t'

def skipBlanks (text : List Char) : List Char :=
  text.dropWhile isBlank

def isCommentChar (c : Char) : Bool :=
  c == '\t' || (c.toNat ≥ 32 && c.toNat != 127)

def lineEnd? : List Char → Option (List Char)
  | [] => some []
  | '\n' :: rest => some rest
  | '\r' :: '\n' :: rest => some rest
  | _ => none

def lineRest? (text : List Char) : Option (List Char) :=
  match skipBlanks text with
  | '#' :: rest => lineEnd? (rest.dropWhile isCommentChar)
  | rest => lineEnd? rest

def skipLines : Nat → List Char → List Char
  | 0, text => text
  | fuel + 1, text =>
    match skipBlanks text with
    | '#' :: rest => skipLines fuel (rest.dropWhile isCommentChar)
    | '\n' :: rest => skipLines fuel rest
    | '\r' :: '\n' :: rest => skipLines fuel rest
    | rest => rest

def skipTrivia (text : List Char) : List Char :=
  skipLines (text.length + 1) text

def hexValue? (c : Char) : Option Nat :=
  if c.isDigit then some (c.toNat - '0'.toNat)
  else if 'a' ≤ c && c ≤ 'f' then some (c.toNat - 'a'.toNat + 10)
  else if 'A' ≤ c && c ≤ 'F' then some (c.toNat - 'A'.toNat + 10)
  else none

def readCodePoint (count : Nat) (text : List Char) : Except Fault (Char × List Char) :=
  let fault : Fault := { subject := some ("unicode " ++ toString count ++ "-digit hex code") }
  match (text.take count).mapM hexValue? with
  | some digits =>
    let code := digits.foldl (fun value digit => value * 16 + digit) 0
    if digits.length < count then .error fault
    else if code.isValidChar then .ok (Char.ofNat code, text.drop count)
    else .error { fault with cause := some .outOfRange }
  | none => .error fault

def readEscape : List Char → Except Fault (Char × List Char)
  | 'b' :: rest => .ok ('\x08', rest)
  | 'f' :: rest => .ok ('\x0c', rest)
  | 'n' :: rest => .ok ('\n', rest)
  | 'r' :: rest => .ok ('\r', rest)
  | 't' :: rest => .ok ('\t', rest)
  | 'u' :: rest => readCodePoint 4 rest
  | 'U' :: rest => readCodePoint 8 rest
  | '\\' :: rest => .ok ('\\', rest)
  | '\"' :: rest => .ok ('\"', rest)
  | _ => .error
    { subject := some "escape sequence"
      expected := ["`b`", "`f`", "`n`", "`r`", "`t`", "`u`", "`U`", "`\\`", "`\"`"] }

def isBasicChar (c : Char) : Bool :=
  isCommentChar c && c != '\"' && c != '\\'

def readBasic : Nat → List Char → List Char → Except Fault (String × List Char)
  | 0, _, _ => .error { subject := some "basic string" }
  | fuel + 1, done, text =>
    match text with
    | '\"' :: rest => .ok (.ofList done.reverse, rest)
    | ['\\'] => .error { subject := some "basic string" }
    | '\\' :: rest => do
      let (c, rest) ← readEscape rest
      readBasic fuel (c :: done) rest
    | c :: rest =>
      if isBasicChar c then readBasic fuel (c :: done) rest
      else .error { subject := some "basic string" }
    | [] => .error { subject := some "basic string" }

def readLiteral (text : List Char) : Except Fault (String × List Char) :=
  let isInside (c : Char) : Bool := isCommentChar c && c != '\''
  match text.dropWhile isInside with
  | '\'' :: rest => .ok (.ofList (text.takeWhile isInside), rest)
  | _ => .error { subject := some "literal string" }

def skipFolded : List Char → List Char
  | '\n' :: rest => skipFolded rest
  | '\r' :: '\n' :: rest => skipFolded rest
  | ' ' :: rest => skipFolded rest
  | '\t' :: rest => skipFolded rest
  | text => text

def closeQuotes (quote : Char) (done text : List Char) : Option (String × List Char) :=
  let count := (text.takeWhile (· == quote)).length
  if count < 3 then none
  else
    let extra := min (count - 3) 2
    some (.ofList (done.reverse ++ List.replicate extra quote), text.drop (extra + 3))

def readLongBasic : Nat → List Char → List Char → Except Fault (String × List Char)
  | 0, _, _ => .error { subject := some "multiline basic string" }
  | fuel + 1, done, text =>
    let fault : Fault := { subject := some "multiline basic string" }
    match text with
    | '\"' :: rest =>
      match closeQuotes '\"' done text with
      | some result => .ok result
      | none => readLongBasic fuel ('\"' :: done) rest
    | ['\\'] => .error fault
    | '\\' :: rest =>
      match skipBlanks rest with
      | '\n' :: after | '\r' :: '\n' :: after => readLongBasic fuel done (skipFolded after)
      | _ => do
        let (c, rest) ← readEscape rest
        readLongBasic fuel (c :: done) rest
    | '\r' :: '\n' :: rest => readLongBasic fuel ('\n' :: done) rest
    | c :: rest =>
      if isBasicChar c || c == '\n' then readLongBasic fuel (c :: done) rest else .error fault
    | [] => .error fault

def readLongLiteral : List Char → List Char → Except Fault (String × List Char)
  | _, [] => .error { subject := some "multiline literal string" }
  | done, c :: rest =>
    if c = '\'' then
      match closeQuotes '\'' done (c :: rest) with
      | some result => .ok result
      | none => readLongLiteral (c :: done) rest
    else if isCommentChar c || c = '\n' then readLongLiteral (c :: done) rest
    else if c = '\r' && rest.head? = some '\n' then readLongLiteral done rest
    else .error { subject := some "multiline literal string" }

def dropFirstLineEnd : List Char → List Char
  | '\n' :: rest => rest
  | '\r' :: '\n' :: rest => rest
  | text => text

def readString (text : List Char) : Except Fault (String × List Char) :=
  match text with
  | '\"' :: '\"' :: '\"' :: rest => readLongBasic (text.length + 1) [] (dropFirstLineEnd rest)
  | '\'' :: '\'' :: '\'' :: rest => readLongLiteral [] (dropFirstLineEnd rest)
  | '\"' :: rest => readBasic (text.length + 1) [] rest
  | '\'' :: rest => readLiteral rest
  | _ => .error (.miss (some "string") ["`\"`", "`'`"])

def isKeyChar (c : Char) : Bool :=
  c.isAlphanum || c == '-' || c == '_'

def readSimpleKey (text : List Char) : Except Fault (String × List Char) :=
  match text with
  | '\"' :: rest => readBasic (text.length + 1) [] rest
  | '\'' :: rest => readLiteral rest
  | _ =>
    match text.takeWhile isKeyChar with
    | [] => .error (.miss (some "key") [])
    | name => .ok (.ofList name, text.dropWhile isKeyChar)

def readKeyRest : Nat → List Char → Except Fault (List String × List Char)
  | 0, text => .ok ([], text)
  | fuel + 1, text =>
    match text with
    | '.' :: after =>
      match readSimpleKey (skipBlanks after) with
      | .ok (name, rest) => do
        let (names, rest) ← readKeyRest fuel (skipBlanks rest)
        return (name :: names, rest)
      | .error fault => if fault.isFinal then .error fault else .ok ([], text)
    | _ => .ok ([], text)

def depthLimit : Nat := 80

def readKey (text : List Char) : Except Fault ((String × List String) × List Char) := do
  let (first, rest) ← readSimpleKey (skipBlanks text)
  let (others, rest) ← readKeyRest text.length (skipBlanks rest)
  if depthLimit ≤ others.length + 1 then .error { cause := some .tooDeep, isFinal := false }
  else return ((first, others), rest)

def readDigits (isDigit : Char → Bool) (subject : String) :
    Nat → List Char → Except Fault (List Char × List Char)
  | 0, text => .ok ([], text)
  | fuel + 1, text =>
    match text with
    | '_' :: c :: rest =>
      if isDigit c then do
        let (digits, rest) ← readDigits isDigit subject fuel rest
        return (c :: digits, rest)
      else .error { subject := some subject, expected := ["digit"] }
    | ['_'] => .error { subject := some subject, expected := ["digit"] }
    | c :: rest =>
      if isDigit c then do
        let (digits, rest) ← readDigits isDigit subject fuel rest
        return (c :: digits, rest)
      else .ok ([], text)
    | [] => .ok ([], text)

def integerOf (isNegative : Bool) (value : Nat) : Except Fault Value :=
  if isNegative then
    if value ≤ 0x8000_0000_0000_0000 then .ok (.integer (-(value : Int))) else .error { cause := some .tooSmall }
  else if value < 0x8000_0000_0000_0000 then .ok (.integer value)
  else .error { cause := some .tooLarge }

def numberOf (base : Nat) (digits : List Char) : Nat :=
  digits.foldl (fun value c => value * base + (hexValue? c).getD 0) 0

def readBased (base : Nat) (subject : String) (text : List Char) :
    Except Fault (Value × List Char) := do
  let isDigit (c : Char) : Bool := (hexValue? c).any (· < base)
  match text with
  | c :: _ =>
    if isDigit c then
      let (digits, rest) ← readDigits isDigit subject text.length text
      return (← integerOf false (numberOf base digits), rest)
    else .error { subject := some subject }
  | [] => .error { subject := some subject }

def readWhole (text : List Char) : Except Fault (List Char × List Char) :=
  match text with
  | '0' :: rest => .ok (['0'], rest)
  | c :: _ =>
    if c.isDigit then readDigits Char.isDigit "integer" text.length text
    else .error (.miss (some "integer") [])
  | [] => .error (.miss (some "integer") [])

def readPlaces (expected : List String) (text : List Char) : Except Fault (List Char × List Char) :=
  let subject := "floating-point number"
  (match text with
    | c :: _ =>
      if c.isDigit then readDigits Char.isDigit subject text.length text
      else .error { subject := some subject }
    | [] => .error { subject := some subject }).mapError (Fault.within none expected)

def readExponent (text : List Char) : Except Fault (Option Int × List Char) :=
  match text with
  | 'e' :: rest | 'E' :: rest => do
    let (isNegative, rest) := match rest with
      | '+' :: rest => (false, rest)
      | '-' :: rest => (true, rest)
      | rest => (false, rest)
    let (digits, rest) ← readPlaces [] rest
    let value : Int := numberOf 10 digits
    return (some (if isNegative then -value else value), rest)
  | _ => .ok (none, text)

def floatText (isNegative : Bool) (value : Decimal.Binary64) : String :=
  let text := value.shortest.positional
  (if isNegative then "-" else "") ++ if text.contains '.' then text else text ++ ".0"

def floatOf (isNegative : Bool) (digits : List Char) (exponent : Int) : Except Fault Value :=
  match Decimal.ofDecimal? (numberOf 10 digits) exponent with
  | some value => .ok (.float (floatText isNegative value))
  | none =>
    if isNegative then .ok (.float "-inf") else .error { subject := some "floating-point number" }

def readDecimal (isNegative : Bool) (text : List Char) : Except Fault (Value × List Char) := do
  let (whole, rest) ← readWhole text
  match rest with
  | '.' :: after =>
    let (places, rest) ← readPlaces ["digit"] after
    let (exponent, rest) ← readExponent rest
    return (← floatOf isNegative (whole ++ places) (exponent.getD 0 - places.length), rest)
  | _ =>
    match ← readExponent rest with
    | (some exponent, rest) => return (← floatOf isNegative whole exponent, rest)
    | (none, rest) => return (← integerOf isNegative (numberOf 10 whole), rest)

def digitsAt? (count : Nat) (text : List Char) : Option (Nat × List Char) :=
  let digits := text.take count
  if digits.length = count && digits.all Char.isDigit then
    some (numberOf 10 digits, text.drop count)
  else none

def readField (count low high : Nat) (text : List Char) : Except Fault (Nat × List Char) :=
  match digitsAt? count text with
  | some (value, rest) =>
    if low ≤ value && value ≤ high then .ok (value, rest)
    else .error { cause := some .outOfRange, isFinal := false }
  | none => .error (.miss none [])

def expectChar (c : Char) : List Char → Except Fault (List Char)
  | first :: rest => if first = c then .ok rest else .error (.miss none [])
  | [] => .error (.miss none [])

def commit {α : Type} (result : Except Fault α) : Except Fault α :=
  result.mapError Fault.final

def skipFraction : List Char → List Char
  | '.' :: c :: rest => if c.isDigit then rest.dropWhile Char.isDigit else '.' :: c :: rest
  | text => text

def readTime (text : List Char) : Except Fault (List Char) := do
  let (_, rest) ← readField 2 0 23 text
  let rest ← expectChar ':' rest
  commit do
    let (_, rest) ← readField 2 0 59 rest
    let rest ← expectChar ':' rest
    let (_, rest) ← readField 2 0 60 rest
    return skipFraction rest

def readOffset (text : List Char) : Except Fault (List Char) :=
  let signed (rest : List Char) : Except Fault (List Char) := do
    let (_, rest) ← readField 2 0 23 rest
    let rest ← expectChar ':' rest
    let (_, rest) ← readField 2 0 59 rest
    return rest
  match text with
  | 'Z' :: rest | 'z' :: rest => .ok rest
  | '+' :: rest | '-' :: rest =>
    (commit (signed rest)).mapError (Fault.within (some "time offset") [])
  | _ => .ok text

def daysOf (year month : Nat) : Nat :=
  let isLeap := year % 4 == 0 && (year % 100 != 0 || year % 400 == 0)
  match month with
  | 2 => if isLeap then 29 else 28
  | 4 | 6 | 9 | 11 => 30
  | _ => 31

def readDate (text : List Char) : Except Fault (List Char) := do
  let (year, rest) ← readField 4 0 9999 text
  let rest ← expectChar '-' rest
  commit do
    let (month, rest) ← readField 2 1 12 rest
    let rest ← expectChar '-' rest
    let (_, rest) ← readField 2 1 (daysOf year month) rest
    return rest

def readMoment (text : List Char) : Except Fault (List Char) := do
  let rest ← readDate text
  match rest with
  | 'T' :: after | 't' :: after | ' ' :: after =>
    match readTime after with
    | .ok rest => readOffset rest
    | .error fault => if fault.isFinal then .error fault else .ok rest
  | _ => .ok rest

def readDateTime (text : List Char) : Except Fault (List Char) :=
  match (readMoment text).mapError (Fault.within (some "date-time") []) with
  | .ok rest => .ok rest
  | .error fault =>
    if fault.isFinal then .error fault
    else (readTime text).mapError (Fault.within (some "time") [])

def readNumeric (text : List Char) : Except Fault (Value × List Char) :=
  match readDateTime text with
  | .ok rest => .ok (.datetime, rest)
  | .error fault =>
    if fault.isFinal then .error fault
    else match text with
    | '0' :: 'x' :: rest => readBased 16 "hexadecimal integer" rest
    | '0' :: 'o' :: rest => readBased 8 "octal integer" rest
    | '0' :: 'b' :: rest => readBased 2 "binary integer" rest
    | '+' :: 'i' :: 'n' :: 'f' :: rest => .ok (.float "inf", rest)
    | '-' :: 'i' :: 'n' :: 'f' :: rest => .ok (.float "-inf", rest)
    | '+' :: 'n' :: 'a' :: 'n' :: rest | '-' :: 'n' :: 'a' :: 'n' :: rest =>
      .ok (.float "NaN", rest)
    | '+' :: rest => readDecimal false rest
    | '-' :: rest => readDecimal true rest
    | _ => readDecimal false text

end Seepage.Document.Toml
