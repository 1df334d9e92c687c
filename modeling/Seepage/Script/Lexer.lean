import Seepage.Script.Context
import Seepage.Script.Escape

set_option autoImplicit false

namespace Seepage.Script

open Text (isLineBreak isScriptBlank isIdentifierStart)

namespace Lexer

inductive Skipping where
  | blanks
  | line
  | block

structure Skipped where
  mode : Skipping
  rest : List Char
  pos : Nat
  newline : Bool

def skipBlanks : Skipping → List Char → Nat → Bool → Skipped
  | mode, [], pos, newline => ⟨mode, [], pos, newline⟩
  | .blanks, '/' :: '/' :: rest, pos, newline => skipBlanks .line rest (pos + 2) newline
  | .blanks, '/' :: '*' :: rest, pos, newline => skipBlanks .block rest (pos + 2) newline
  | .blanks, c :: rest, pos, newline =>
    if isScriptBlank c then skipBlanks .blanks rest (pos + c.utf8Size) (newline || isLineBreak c)
    else ⟨.blanks, c :: rest, pos, newline⟩
  | .line, c :: rest, pos, newline =>
    skipBlanks (if isLineBreak c then .blanks else .line) rest (pos + c.utf8Size)
      (newline || isLineBreak c)
  | .block, '*' :: '/' :: rest, pos, newline => skipBlanks .blanks rest (pos + 2) newline
  | .block, c :: rest, pos, newline =>
    skipBlanks .block rest (pos + c.utf8Size) (newline || isLineBreak c)

def punct? (text : List Char) : Option Punct :=
  match text with
  | '?' :: '.' :: c :: _ =>
    if c.isDigit then some .question
    else Punct.byLength.find? fun punct => punct.text.toList.isPrefixOf text
  | _ => Punct.byLength.find? fun punct => punct.text.toList.isPrefixOf text

def scan (context : Context) (text : List Char) (pos : Nat) : Scanned :=
  match text with
  | [] => ⟨.eof, [], []⟩
  | c :: rest =>
    if c = '\\' || isIdentifierStart c then scanName context.isReserved text pos
    else if Numeral.starts text then Numeral.scan context.typed text pos
    else if c = '\"' || c = '\'' then scanString c rest pos
    else if c = '`' then scanTemplate rest pos
    else
      match punct? text with
      | some punct => ⟨.punct punct, text.drop punct.text.length, []⟩
      | none => ⟨.invalid ⟨.unexpectedCharacter c, pos⟩, rest, []⟩

def legacyComment? (newline : Bool) : List Char → Option (List Char)
  | '<' :: '!' :: '-' :: '-' :: rest => some rest
  | '-' :: '-' :: '>' :: rest => if newline then some rest else none
  | _ => none

-- The first token of a text, after blanks and comments. A token behind old comments begins where
-- the first of them does.
def next (context : Context) : Nat → List Char → Nat → Option Nat → Bool → List Remark → Lexeme
  | 0, text, pos, _, newline, remarks => ⟨.eof, ⟨pos, pos⟩, newline, text, text, remarks, false⟩
  | fuel + 1, text, pos, start?, newline, remarks =>
    let skipped := skipBlanks .blanks text pos newline
    let remarks := match skipped.mode with
      | .block => remarks ++ [{ fault := ⟨.unterminatedComment, skipped.pos⟩ }]
      | _ => remarks
    let start := start?.getD skipped.pos
    match legacyComment? skipped.newline skipped.rest with
    | some rest =>
      let line := skipBlanks .line rest (posAt skipped.rest rest skipped.pos) skipped.newline
      next context fuel line.rest line.pos (some start) line.newline
        (remarks ++ [⟨⟨.legacyComment, start⟩, .moduleCode⟩])
    | none =>
      let scanned := scan context skipped.rest skipped.pos
      ⟨scanned.token, ⟨start, posAt skipped.rest scanned.rest skipped.pos⟩, skipped.newline,
        skipped.rest, scanned.rest, remarks ++ scanned.remarks, false⟩

def regexBody : Bool → List Char → List Char → Option (List Char × List Char)
  | _, [], _ => none
  | inClass, '\\' :: c :: rest, body =>
    if isLineBreak c then none else regexBody inClass rest (c :: '\\' :: body)
  | inClass, c :: rest, body =>
    if isLineBreak c then none
    else if c = '/' && !inClass then some (body.reverse, rest)
    else regexBody (if c = '[' then true else if c = ']' then false else inClass) rest (c :: body)

def regex (text : List Char) (pos : Nat) (newline : Bool) : Lexeme :=
  let lexeme (token : Token) (rest : List Char) (remarks : List Remark) (stuck : Bool) : Lexeme :=
    ⟨token, ⟨pos, posAt text rest pos⟩, newline, text, rest, remarks, stuck⟩
  match regexBody false (text.drop 1) [] with
  | some (body, rest) =>
    if rest.head?.any isIdentifierStart then
      match nameFrom (rest.length + 1) rest (posAt text rest pos) {} with
      | .ok (flags, rest) =>
        lexeme (.regex (.ofList body) (.ofList flags.chars.reverse)) rest flags.remarks false
      | .error bad => lexeme (.invalid bad.fault) bad.rest bad.remarks true
    else lexeme (.regex (.ofList body) "") rest [] false
  | none => lexeme (.invalid ⟨.unterminatedRegex, pos⟩) (text.dropWhile (!isLineBreak ·)) [] true

def isFlag (c : Char) : Bool :=
  "dgimsuvy".toList.contains c

def repeatedFlag? : List Char → Option Char
  | [] => none
  | flag :: rest => if isFlag flag && rest.contains flag then some flag else repeatedFlag? rest

def flagFaults (flags : List Char) : List Cause :=
  (if flags.all isFlag then [] else [.unknownFlags]) ++
    (repeatedFlag? flags).toList.map Cause.duplicateFlag

end Lexer

end Seepage.Script
