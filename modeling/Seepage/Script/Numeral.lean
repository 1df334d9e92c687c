import Seepage.Decimal.Shortest
import Seepage.Script.Token
import Seepage.Text.Identifier

set_option autoImplicit false

namespace Seepage.Script

open Text (isIdentifierStart)

def byteLength (text : List Char) : Nat :=
  text.foldl (fun size c => size + c.utf8Size) 0

def posAt (text rest : List Char) (pos : Nat) : Nat :=
  pos + byteLength (text.take (text.length - rest.length))

def digitValue? (c : Char) : Option Nat :=
  if c.isDigit then some (c.toNat - '0'.toNat)
  else if 'a' ≤ c ∧ c ≤ 'f' then some (c.toNat - 'a'.toNat + 10)
  else if 'A' ≤ c ∧ c ≤ 'F' then some (c.toNat - 'A'.toNat + 10)
  else none

def isDigitOf (radix : Nat) (c : Char) : Bool :=
  match digitValue? c with
  | some value => value < radix
  | none => false

def digitValues (digits : List Char) : List Nat :=
  digits.filterMap digitValue?

def valueOf (radix : Nat) (digits : List Char) : Nat :=
  (digitValues digits).foldl (fun value digit => value * radix + digit) 0

structure DigitRun where
  digits : List Char
  rest : List Char
  misplaced : Nat

def digitsUpTo (radix : Nat) : Nat → List Char → DigitRun
  | 0, text => ⟨[], text, 0⟩
  | _, [] => ⟨[], [], 0⟩
  | count + 1, c :: rest =>
    if c = '_' then
      let run := digitsUpTo radix (count + 1) rest
      if rest.head?.any (isDigitOf radix) then run
      else { run with misplaced := run.misplaced + 1 }
    else if isDigitOf radix c then
      let run := digitsUpTo radix count rest
      { run with digits := c :: run.digits }
    else ⟨[], c :: rest, 0⟩

def digitRun (radix : Nat) (text : List Char) : DigitRun :=
  digitsUpTo radix (text.length + 1) text

def DigitRun.remarks (run : DigitRun) (pos : Nat) : List Remark :=
  .replicate run.misplaced { fault := ⟨.misplacedSeparator, pos⟩ }

structure Scanned where
  token : Token
  rest : List Char
  remarks : List Remark := []

namespace Numeral

def radixOf? : Char → Option Nat
  | 'x' | 'X' => some 16
  | 'o' | 'O' => some 8
  | 'b' | 'B' => some 2
  | _ => none

def ended (numeral : Scanned) (pos : Nat) : Scanned :=
  if numeral.rest.head?.any isIdentifierStart then
    { numeral with token := .invalid ⟨.identifierAfterNumber, pos⟩ }
  else numeral

def integral (radix : Nat) (text : List Char) (pos : Nat) : Scanned :=
  let run := digitRun radix text
  let remarks := run.remarks pos
  if run.digits.isEmpty then ⟨.invalid ⟨.digitExpected radix, pos⟩, run.rest, remarks⟩
  else
    match run.rest with
    | 'n' :: rest => ⟨.bigInt (toString (valueOf radix run.digits)), rest, remarks⟩
    | rest =>
      let value := Decimal.ofDigits radix (digitValues run.digits)
      ended ⟨.number (Decimal.plain (Decimal.ofDecimal? value 0)), rest, remarks⟩
        (posAt text rest pos)

structure Exponent where
  value : Except Fault Int
  rest : List Char
  remarks : List Remark := []

def exponent (text : List Char) (pos : Nat) : Exponent :=
  if text.isEmpty then ⟨.error ⟨.exponentExpected, pos⟩, [], []⟩
  else
    let (negative, digits) := match text with
      | '-' :: rest => (true, rest)
      | '+' :: rest => (false, rest)
      | rest => (false, rest)
    let start := posAt text digits pos
    let run := digitRun 10 digits
    let power : Int := valueOf 10 run.digits
    let value := if run.digits.isEmpty then .error ⟨.digitExpected 10, start⟩
      else .ok (if negative then -power else power)
    ⟨value, run.rest, run.remarks start⟩

def fractional (whole : List Char) (remarks : List Remark) (text : List Char) (pos : Nat) :
    Scanned :=
  let (places, afterPlaces, remarks) := match text with
    | '.' :: rest =>
      let run := digitRun 10 rest
      (run.digits, run.rest, remarks ++ run.remarks (pos + 1))
    | rest => ([], rest, remarks)
  let number (power : Int) (rest : List Char) (remarks : List Remark) : Scanned :=
    let value := Decimal.ofDecimal? (valueOf 10 (whole ++ places)) (power - places.length)
    ended ⟨.number (Decimal.plain value), rest, remarks⟩ (posAt text rest pos)
  match afterPlaces with
  | 'e' :: rest | 'E' :: rest =>
    let exponent := exponent rest (posAt text rest pos)
    match exponent.value with
    | .ok power => number power exponent.rest (remarks ++ exponent.remarks)
    | .error fault => ⟨.invalid fault, exponent.rest, remarks ++ exponent.remarks⟩
  | rest => number 0 rest remarks

def decimal (typed : Bool) (text : List Char) (pos : Nat) : Scanned :=
  let run := digitRun 10 text
  let remarks := run.remarks pos
  let after := posAt text run.rest pos
  let hasLeadingZero := text.head? == some '0' && after > pos + 1
  match hasLeadingZero, run.rest with
  | false, 'n' :: rest => ⟨.bigInt (toString (valueOf 10 run.digits)), rest, remarks⟩
  | false, rest => fractional run.digits remarks rest after
  | true, rest =>
    if run.digits.all (isDigitOf 8) then
      let value := Decimal.ofDigits 8 (digitValues run.digits)
      let legacy : List Remark := [⟨⟨.legacyOctal, pos⟩, .strictCode⟩]
      let typedOnly : List Remark := if typed then [{ fault := ⟨.octalInTypedCode, pos⟩ }] else []
      if rest.head?.any isIdentifierStart then
        ⟨.invalid ⟨.identifierAfterNumber, after⟩, rest, remarks⟩
      else
        ⟨.number (Decimal.plain (Decimal.ofDecimal? value 0)), rest,
          remarks ++ typedOnly ++ legacy⟩
    else
      fractional run.digits (remarks ++ [⟨⟨.legacyDecimal, pos⟩, .strictCode⟩]) rest after

def starts : List Char → Bool
  | '.' :: c :: _ => c.isDigit
  | c :: _ => c.isDigit
  | [] => false

def scan (typed : Bool) (text : List Char) (pos : Nat) : Scanned :=
  match text with
  | '.' :: _ => fractional [] [] text pos
  | '0' :: mark :: rest =>
    match radixOf? mark with
    | some radix => integral radix rest (pos + 2)
    | none => decimal typed text pos
  | _ => decimal typed text pos

end Numeral

end Seepage.Script
