import Seepage.Script.Numeral
import Seepage.Text.Blank

set_option autoImplicit false

namespace Seepage.Script

open Text (isLineBreak isIdentifierPart)

structure BadEscape where
  cause : Cause
  rest : List Char
  remarks : List Remark := []

structure Escape where
  value : List Char
  rest : List Char
  remarks : List Remark := []

def isSurrogate (code : Nat) : Bool :=
  0xD800 ≤ code && code ≤ 0xDFFF

def bracedEscape (text : List Char) (pos : Nat) : Except BadEscape Escape :=
  let run := digitRun 16 text
  let remarks := run.remarks pos
  let code := valueOf 16 run.digits
  if run.digits.isEmpty || code > 0x10FFFF then
    .error ⟨.badEscape "1-6 hex characters", run.rest, remarks⟩
  else
    let kept := (text.take 6).takeWhile (· != '\x7d')
    let (value, rest) :=
      if isSurrogate code then (['\\', 'u', '\x7b'] ++ kept ++ ['\x7d'], text.drop kept.length)
      else ([Char.ofNat code], run.rest)
    match rest with
    | '\x7d' :: rest => .ok ⟨value, rest, remarks⟩
    | _ => .error ⟨.invalidEscape, text, remarks⟩

def unicodeEscape (text : List Char) (pos : Nat) : Except BadEscape Escape :=
  match text with
  | '\x7b' :: rest => bracedEscape rest (pos + 1)
  | _ =>
    let run := digitsUpTo 16 4 text
    let remarks := run.remarks pos
    let code := valueOf 16 run.digits
    if run.digits.length < 4 then .error ⟨.badEscape "4 hex characters", run.rest, remarks⟩
    else if isSurrogate code then .ok ⟨'\\' :: 'u' :: text.take 4, text.drop 4, remarks⟩
    else .ok ⟨[Char.ofNat code], run.rest, remarks⟩

def byteEscape (text : List Char) (pos : Nat) : Except BadEscape Escape :=
  let run := digitsUpTo 16 2 text
  let remarks := run.remarks pos
  if run.digits.length < 2 then .error ⟨.badEscape "2 hex characters", run.rest, remarks⟩
  else .ok ⟨[Char.ofNat (valueOf 16 run.digits)], run.rest, remarks⟩

def octalEscape (text : List Char) (pos : Nat) : Escape :=
  let count := if text.head?.any (· ≤ '3') then 3 else 2
  let digits := (text.take count).takeWhile (isDigitOf 8)
  ⟨[Char.ofNat (valueOf 8 digits)], text.drop digits.length, [⟨⟨.legacyOctal, pos⟩, .strictCode⟩]⟩

-- What an escape stands for, after its backslash at `pos`. Line ends vanish, `\0` not before an
-- octal digit is the null character, and any character without a meaning of its own stands for
-- itself. Templates have no octal escapes.
def escape (inTemplate : Bool) (text : List Char) (pos : Nat) : Except BadEscape Escape :=
  match text with
  | [] => .error ⟨.escapeCutOff, [], []⟩
  | 'n' :: rest => .ok ⟨['\n'], rest, []⟩
  | 't' :: rest => .ok ⟨['\t'], rest, []⟩
  | 'r' :: rest => .ok ⟨['\r'], rest, []⟩
  | 'b' :: rest => .ok ⟨['\x08'], rest, []⟩
  | 'v' :: rest => .ok ⟨['\x0b'], rest, []⟩
  | 'f' :: rest => .ok ⟨['\x0c'], rest, []⟩
  | '\r' :: '\n' :: rest => .ok ⟨[], rest, []⟩
  | 'u' :: rest => unicodeEscape rest (pos + 2)
  | 'x' :: rest => byteEscape rest (pos + 2)
  | c :: rest =>
    if isLineBreak c then .ok ⟨[], rest, []⟩
    else if c = '0' && !(rest.head?.any (isDigitOf 8)) then .ok ⟨['\x00'], rest, []⟩
    else if isDigitOf 8 c then
      if inTemplate then .error ⟨.legacyOctal, rest, []⟩ else .ok (octalEscape (c :: rest) pos)
    else .ok ⟨[c], rest, []⟩

def stringFrom (quote : Char) (start : Nat) :
    Nat → List Char → Nat → List Char → List Char → List Remark → Scanned
  | 0, text, _, _, _, remarks => ⟨.eof, text, remarks⟩
  | fuel + 1, text, pos, value, slice, remarks =>
    let unterminated : Scanned :=
      ⟨.string (.ofList slice.reverse), text,
        remarks ++ [{ fault := ⟨.unterminatedString, start⟩ }]⟩
    match text with
    | [] => unterminated
    | '\\' :: rest =>
      match escape false rest pos with
      | .ok escape =>
        stringFrom quote start fuel escape.rest (posAt text escape.rest pos)
          (escape.value.reverse ++ value) [] (remarks ++ escape.remarks)
      | .error bad => ⟨.invalid ⟨bad.cause, pos⟩, bad.rest, remarks ++ bad.remarks⟩
    | c :: rest =>
      if c = quote then ⟨.string (.ofList value.reverse), rest, remarks⟩
      else if c = '\n' || c = '\r' then unterminated
      else stringFrom quote start fuel rest (pos + c.utf8Size) (c :: value) (c :: slice) remarks

def scanString (quote : Char) (rest : List Char) (pos : Nat) : Scanned :=
  stringFrom quote pos (rest.length + 1) rest (pos + 1) [] [] []

def templateFrom (start : Nat) :
    Nat → List Char → Nat → List Char → Option Fault → List Remark → Scanned
  | 0, text, _, _, _, remarks => ⟨.eof, text, remarks⟩
  | fuel + 1, text, pos, raw, fault?, remarks =>
    match text with
    | [] => ⟨.invalid ⟨.unterminatedTemplate, start⟩, [], remarks⟩
    | '`' :: rest => ⟨.template ⟨.ofList raw.reverse, fault?, true⟩, rest, remarks⟩
    | '$' :: '\x7b' :: rest => ⟨.template ⟨.ofList raw.reverse, fault?, false⟩, rest, remarks⟩
    | '\\' :: rest =>
      let (fault?, after, found) := match escape true rest pos with
        | .ok escape => (fault?, escape.rest, escape.remarks)
        | .error bad => (some ⟨bad.cause, pos⟩, bad.rest, bad.remarks)
      let taken := text.take (text.length - after.length)
      templateFrom start fuel after (posAt text after pos) (taken.reverse ++ raw) fault?
        (remarks ++ found)
    | c :: rest => templateFrom start fuel rest (pos + c.utf8Size) (c :: raw) fault? remarks

def scanTemplate (rest : List Char) (start : Nat) : Scanned :=
  templateFrom start (rest.length + 1) rest (start + 1) [] none []

structure NameScan where
  chars : List Char := []
  escaped : Bool := false
  remarks : List Remark := []

structure BadName where
  fault : Fault
  rest : List Char
  remarks : List Remark

def nameFrom : Nat → List Char → Nat → NameScan → Except BadName (NameScan × List Char)
  | 0, text, _, name => .ok (name, text)
  | fuel + 1, text, pos, name =>
    match text with
    | [] => .ok (name, [])
    | '\\' :: 'u' :: rest =>
      match unicodeEscape rest (pos + 2) with
      | .ok escape =>
        let isValid := escape.value.head?.all fun c =>
          if name.chars.isEmpty then Text.isIdentifierStart c else isIdentifierPart c
        let remarks : List Remark :=
          if isValid then [] else [{ fault := ⟨.invalidNameCharacter, pos⟩ }]
        nameFrom fuel escape.rest (posAt text escape.rest pos)
          ⟨escape.value.reverse ++ name.chars, true, name.remarks ++ escape.remarks ++ remarks⟩
      | .error bad =>
        .error ⟨⟨bad.cause, posAt text bad.rest pos⟩, bad.rest, name.remarks ++ bad.remarks⟩
    | '\\' :: rest => .error ⟨⟨.escapeExpected, pos⟩, rest, name.remarks⟩
    | c :: rest =>
      if isIdentifierPart c then
        nameFrom fuel rest (pos + c.utf8Size) { name with chars := c :: name.chars }
      else .ok (name, text)

def scanName (isReserved : String → Bool) (text : List Char) (pos : Nat) : Scanned :=
  match nameFrom (text.length + 1) text pos {} with
  | .error bad => ⟨.invalid bad.fault, bad.rest, bad.remarks⟩
  | .ok (scan, rest) =>
    let name := String.ofList scan.chars.reverse
    if text.head? == some '\\' then ⟨.escapedName name, rest, scan.remarks⟩
    else if scan.escaped && isReserved name then
      ⟨.invalid ⟨.escapedKeyword name, pos⟩, rest, scan.remarks⟩
    else ⟨.word name, rest, scan.remarks⟩

end Seepage.Script
