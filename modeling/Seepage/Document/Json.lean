import Seepage.Decimal.Arithmetic
import Seepage.Document.Value

set_option autoImplicit false

namespace Seepage.Document.Json

inductive Cause where
  | eofInValue
  | eofInList
  | eofInObject
  | eofInString
  | expectedColon
  | expectedListEnd
  | expectedObjectEnd
  | expectedIdent
  | expectedValue
  | invalidEscape
  | invalidNumber
  | outOfRange
  | controlCharacter
  | keyNotString
  | loneSurrogate
  | endOfHexEscape
  | trailingComma
  | trailingCharacters
  | tooDeep
deriving DecidableEq, Repr, Inhabited

def Cause.message : Cause → String
  | .eofInValue => "EOF while parsing a value"
  | .eofInList => "EOF while parsing a list"
  | .eofInObject => "EOF while parsing an object"
  | .eofInString => "EOF while parsing a string"
  | .expectedColon => "expected `:`"
  | .expectedListEnd => "expected `,` or `]`"
  | .expectedObjectEnd => "expected `,` or `\x7d`"
  | .expectedIdent => "expected ident"
  | .expectedValue => "expected value"
  | .invalidEscape => "invalid escape"
  | .invalidNumber => "invalid number"
  | .outOfRange => "number out of range"
  | .controlCharacter => "control character (\\u0000-\\u001F) found while parsing a string"
  | .keyNotString => "key must be a string"
  | .loneSurrogate => "lone leading surrogate in hex escape"
  | .endOfHexEscape => "unexpected end of hex escape"
  | .trailingComma => "trailing comma"
  | .trailingCharacters => "trailing characters"
  | .tooDeep => "recursion limit exceeded"

structure Fault where
  cause : Cause
  offset : Nat
deriving DecidableEq, Repr, Inhabited

structure Input where
  rest : List Char
  offset : Nat
deriving DecidableEq, Repr, Inhabited

namespace Input

def skip (input : Input) : Input :=
  match input.rest with
  | [] => input
  | c :: rest => ⟨rest, input.offset + c.utf8Size⟩

def fail {α : Type} (input : Input) (cause : Cause) : Except Fault α :=
  .error ⟨cause, input.offset⟩

def failNext {α : Type} (input : Input) (cause : Cause) : Except Fault α :=
  .error ⟨cause, if input.rest.isEmpty then input.offset else input.offset + 1⟩

end Input

def isBlank (c : Char) : Bool :=
  c == ' ' || c == '\n' || c == '\t' || c == '\r'

def skipBlanksFrom : List Char → Nat → Input
  | [], offset => ⟨[], offset⟩
  | c :: rest, offset => if isBlank c then skipBlanksFrom rest (offset + 1) else ⟨c :: rest, offset⟩

def Input.skipBlanks (input : Input) : Input :=
  skipBlanksFrom input.rest input.offset

def readWord (input : Input) : List Char → Except Fault Input
  | [] => .ok input
  | expected :: word =>
    match input.rest with
    | [] => input.fail .eofInValue
    | c :: _ => if c = expected then readWord input.skip word else input.failNext .expectedIdent

def digitValue (c : Char) : Nat :=
  c.toNat - '0'.toNat

def spanDigits (input : Input) : List Nat × Input :=
  let digits := input.rest.takeWhile Char.isDigit
  (digits.map digitValue, ⟨input.rest.dropWhile Char.isDigit, input.offset + digits.length⟩)

def maxSignificand : Nat := 0xffff_ffff_ffff_ffff

def accumulate : Nat → List Nat → Nat × Nat
  | significand, [] => (significand, 0)
  | significand, digit :: rest =>
    let next := significand * 10 + digit
    if next > maxSignificand then (significand, rest.length + 1) else accumulate next rest

def floatText (isNegative : Bool) (value : Decimal.Binary64) : String :=
  (if isNegative then "-" else "") ++ value.shortest.pointed

def scaled (input : Input) (isNegative : Bool) (significand : Nat) (exponent : Int) :
    Except Fault (Value × Input) :=
  match Decimal.ofScaled? significand exponent with
  | some value => .ok (.float (floatText isNegative value), input)
  | none => input.fail .outOfRange

def maxExponent : Nat := 0x7fff_ffff

def exponentOf : Nat → Nat → List Nat → Except Nat Nat
  | _, exponent, [] => .ok exponent
  | count, exponent, digit :: rest =>
    let next := exponent * 10 + digit
    if next > maxExponent then .error (count + 1) else exponentOf (count + 1) next rest

def readExponent (input : Input) (isNegative : Bool) (significand : Nat) (start : Int) :
    Except Fault (Value × Input) :=
  let (isBelow, input) := match input.rest with
    | '+' :: _ => (false, input.skip)
    | '-' :: _ => (true, input.skip)
    | _ => (false, input)
  match input.rest with
  | [] => input.fail .eofInValue
  | c :: _ =>
    if c.isDigit then
      let (digits, after) := spanDigits input
      match exponentOf 0 0 digits with
      | .ok exponent =>
        scaled after isNegative significand (if isBelow then start - exponent else start + exponent)
      | .error count =>
        if significand ≠ 0 && !isBelow then
          .error ⟨.outOfRange, input.offset + count⟩
        else .ok (.float (if isNegative then "-0.0" else "0.0"), after)
    else input.failNext .invalidNumber

def readScale (input : Input) (isNegative : Bool) (significand : Nat) (start : Int) :
    Except Fault (Value × Input) :=
  match input.rest with
  | 'e' :: _ | 'E' :: _ => readExponent input.skip isNegative significand start
  | _ => scaled input isNegative significand start

def readFraction (input : Input) (isNegative : Bool) (significand : Nat) (start : Int) :
    Except Fault (Value × Input) :=
  match spanDigits input with
  | ([], _) => input.failNext (if input.rest.isEmpty then .eofInValue else .invalidNumber)
  | (digits, after) =>
    let (significand, dropped) := accumulate significand digits
    readScale after isNegative significand (start - (digits.length - dropped : Nat))

def integerValue (isNegative : Bool) (significand : Nat) : Value :=
  if !isNegative then .integer significand
  else if 0 < significand && significand ≤ 0x8000_0000_0000_0000 then .integer (-(significand : Int))
  else
    match Decimal.ofDecimal? significand 0 with
    | some value => .float (floatText true value)
    | none => .null

def readNumberEnd (input : Input) (isNegative : Bool) (significand dropped : Nat) :
    Except Fault (Value × Input) :=
  match input.rest with
  | '.' :: _ => readFraction input.skip isNegative significand dropped
  | 'e' :: _ | 'E' :: _ => readExponent input.skip isNegative significand dropped
  | _ =>
    if dropped = 0 then .ok (integerValue isNegative significand, input)
    else scaled input isNegative significand dropped

def readNumber (input : Input) (isNegative : Bool) : Except Fault (Value × Input) :=
  match input.rest with
  | [] => input.fail .eofInValue
  | '0' :: rest =>
    if (rest.head?.map Char.isDigit).getD false then input.skip.failNext .invalidNumber
    else readNumberEnd input.skip isNegative 0 0
  | c :: _ =>
    if c.isDigit then
      let (digits, after) := spanDigits input
      let (significand, dropped) := accumulate 0 digits
      readNumberEnd after isNegative significand dropped
    else input.failNext .invalidNumber

def hexValue? (c : Char) : Option Nat :=
  if c.isDigit then some (digitValue c)
  else if 'a' ≤ c && c ≤ 'f' then some (c.toNat - 'a'.toNat + 10)
  else if 'A' ≤ c && c ≤ 'F' then some (c.toNat - 'A'.toNat + 10)
  else none

def readHex (input : Input) : Except Fault (Nat × Input) :=
  let bytes := input.rest.foldl (fun bytes char => bytes + char.utf8Size) 0
  if bytes < 4 then .error ⟨.eofInString, input.offset + bytes⟩
  else
    match (input.rest.take 4).mapM hexValue? with
    | some [a, b, c, d] =>
      .ok (((a * 16 + b) * 16 + c) * 16 + d, ⟨input.rest.drop 4, input.offset + 4⟩)
    | _ => .error ⟨.invalidEscape, input.offset + 4⟩

def readPairChar (input : Input) (expected : Char) : Except Fault Input :=
  match input.rest with
  | [] => input.fail .eofInString
  | c :: _ => if c = expected then .ok input.skip else .error ⟨.endOfHexEscape, input.offset + 1⟩

def readUnicode (input : Input) : Except Fault (Char × Input) := do
  let (first, input) ← readHex input
  if 0xdc00 ≤ first && first ≤ 0xdfff then input.fail .loneSurrogate
  else if first < 0xd800 || 0xdbff < first then return (Char.ofNat first, input)
  else
    let input ← readPairChar input '\\'
    let input ← readPairChar input 'u'
    let (second, input) ← readHex input
    if second < 0xdc00 || 0xdfff < second then input.fail .loneSurrogate
    else
      return (Char.ofNat ((first - 0xd800) * 0x400 + (second - 0xdc00) + 0x10000), input)

def readEscape (input : Input) : Except Fault (Char × Input) :=
  match input.rest with
  | [] => input.fail .eofInString
  | c :: _ =>
    match c with
    | '\"' | '\\' | '/' => .ok (c, input.skip)
    | 'b' => .ok ('\x08', input.skip)
    | 'f' => .ok ('\x0c', input.skip)
    | 'n' => .ok ('\n', input.skip)
    | 'r' => .ok ('\r', input.skip)
    | 't' => .ok ('\t', input.skip)
    | 'u' => readUnicode input.skip
    | _ => .error ⟨.invalidEscape, input.offset + 1⟩

def readString : Nat → Input → List Char → Except Fault (String × Input)
  | 0, input, _ => input.fail .eofInString
  | fuel + 1, input, done =>
    match input.rest with
    | [] => input.fail .eofInString
    | '\"' :: _ => .ok (.ofList done.reverse, input.skip)
    | '\\' :: _ => do
      let (c, input) ← readEscape input.skip
      readString fuel input (c :: done)
    | c :: _ =>
      if c.toNat < 32 then input.skip.fail .controlCharacter
      else readString fuel input.skip (c :: done)

def insertField (name : String) (value : Value) : List (String × Value) → List (String × Value)
  | [] => [(name, value)]
  | (other, old) :: rest =>
    if name = other then (name, value) :: rest
    else if name < other then (name, value) :: (other, old) :: rest
    else (other, old) :: insertField name value rest

def expectColon (input : Input) : Except Fault Input :=
  let input := input.skipBlanks
  match input.rest with
  | ':' :: _ => .ok input.skip
  | [] => input.failNext .eofInObject
  | _ => input.failNext .expectedColon

mutual

def readValue : Nat → Nat → Input → Except Fault (Value × Input)
  | 0, _, input => input.fail .eofInValue
  | fuel + 1, depth, input =>
    let input := input.skipBlanks
    match input.rest with
    | [] => input.failNext .eofInValue
    | c :: _ =>
      match c with
      | 'n' => do return (.null, ← readWord input.skip ['u', 'l', 'l'])
      | 't' => do return (.boolean true, ← readWord input.skip ['r', 'u', 'e'])
      | 'f' => do return (.boolean false, ← readWord input.skip ['a', 'l', 's', 'e'])
      | '-' => readNumber input.skip true
      | '\"' => do
        let (text, input) ← readString (input.rest.length + 1) input.skip []
        return (.string text, input)
      | '[' =>
        if depth ≤ 1 then input.failNext .tooDeep
        else do
          let (elements, input) ← readElements fuel (depth - 1) input.skip true
          return (.array elements, input)
      | '\x7b' =>
        if depth ≤ 1 then input.failNext .tooDeep
        else do
          let (fields, input) ← readFields fuel (depth - 1) input.skip true []
          return (.table fields, input)
      | c => if c.isDigit then readNumber input false else input.failNext .expectedValue

def readElements : Nat → Nat → Input → Bool → Except Fault (List Value × Input)
  | 0, _, input, _ => input.fail .eofInList
  | fuel + 1, depth, input, isFirst => do
    let input := input.skipBlanks
    match input.rest with
    | [] => input.failNext .eofInList
    | ']' :: _ => return ([], input.skip)
    | c :: _ =>
      let start ←
        if isFirst then pure input
        else if c = ',' then
          let next := input.skip.skipBlanks
          match next.rest with
          | [] => next.failNext .eofInValue
          | ']' :: _ => next.failNext .trailingComma
          | _ => pure next
        else input.failNext .expectedListEnd
      let (value, input) ← readValue fuel depth start
      let (rest, input) ← readElements fuel depth input false
      return (value :: rest, input)

def readFields : Nat → Nat → Input → Bool → List (String × Value) →
    Except Fault (List (String × Value) × Input)
  | 0, _, input, _, _ => input.fail .eofInObject
  | fuel + 1, depth, input, isFirst, done => do
    let input := input.skipBlanks
    match input.rest with
    | [] => input.failNext .eofInObject
    | '\x7d' :: _ => return (done, input.skip)
    | c :: _ =>
      let start ←
        if isFirst then
          if c = '\"' then pure input else input.failNext .keyNotString
        else if c = ',' then
          let next := input.skip.skipBlanks
          match next.rest with
          | [] => next.failNext .eofInValue
          | '\x7d' :: _ => next.failNext .trailingComma
          | '\"' :: _ => pure next
          | _ => next.failNext .keyNotString
        else input.failNext .expectedObjectEnd
      let (name, input) ← readString (start.rest.length + 1) start.skip []
      let (value, input) ← readValue fuel depth (← expectColon input)
      readFields fuel depth input false (insertField name value done)

end

def placeOf : List Char → Nat → Nat → Nat → Nat × Nat
  | _, 0, line, column => (line, column)
  | [], left, line, column => (line, column + left)
  | c :: rest, left + 1, line, column =>
    if c = '\n' then placeOf rest left (line + 1) 0
    else if left + 1 ≤ c.utf8Size then (line, column + left + 1)
    else placeOf rest (left + 1 - c.utf8Size) line (column + c.utf8Size)

def Fault.text (text : List Char) (fault : Fault) : String :=
  let (line, column) := placeOf text fault.offset 1 0
  fault.cause.message ++ " at line " ++ toString line ++ " column " ++ toString column

def maxDepth : Nat := 128

def readDocument (text : List Char) : Except Fault Value := do
  let (value, input) ← readValue (2 * text.length + 2) maxDepth ⟨text, 0⟩
  let input := input.skipBlanks
  if input.rest.isEmpty then return value else input.failNext .trailingCharacters

def read (text : String) : Except String Value :=
  (readDocument text.toList).mapError (Fault.text text.toList)

end Seepage.Document.Json
