import Seepage.Text.Blank
import Seepage.Text.Word

set_option autoImplicit false

namespace Seepage.Markup

open Text (isWhiteSpace isWordChar)

structure Attribute where
  name : String
  value : String
deriving DecidableEq, Repr, Inhabited

structure StartTag where
  name : String
  attributes : List Attribute
  selfClosing : Bool
deriving DecidableEq, Repr, Inhabited

inductive Token where
  | comment
  | close (name : String)
  | start (tag : StartTag)
deriving DecidableEq, Repr, Inhabited

def skipBlanks (text : List Char) : List Char :=
  text.dropWhile isWhiteSpace

def splitAfter? (mark : List Char) : List Char → Option (List Char × List Char)
  | [] => if mark.isEmpty then some ([], []) else none
  | c :: rest =>
    if mark.isPrefixOf (c :: rest) then some ([], (c :: rest).drop mark.length)
    else (splitAfter? mark rest).map fun (before, after) => (c :: before, after)

def isTagNameChar (c : Char) : Bool :=
  isWordChar c || c == ':' || c == '.' || c == '-'

def isAttributeNameChar (c : Char) : Bool :=
  !isWhiteSpace c && c != '=' && c != '/' && c != '>'

def isBareValueChar (c : Char) : Bool :=
  !isWhiteSpace c && c != '\"' && c != '\'' && c != '>'

def readTagName? : List Char → Option (String × List Char)
  | c :: rest =>
    if c.isAlpha then
      some (.ofList (c :: rest.takeWhile isTagNameChar), rest.dropWhile isTagNameChar)
    else none
  | [] => none

def readValue? (text : List Char) : Option (String × List Char) :=
  match text with
  | '\"' :: rest => (splitAfter? ['\"'] rest).map fun (value, rest) => (.ofList value, rest)
  | '\'' :: rest => (splitAfter? ['\''] rest).map fun (value, rest) => (.ofList value, rest)
  | _ =>
    match text.takeWhile isBareValueChar with
    | [] => none
    | value => some (.ofList value, text.dropWhile isBareValueChar)

def readAttribute? (text : List Char) : Option (Attribute × List Char) :=
  let name := String.ofList (text.takeWhile isAttributeNameChar)
  let rest := text.dropWhile isAttributeNameChar
  match skipBlanks rest with
  | '=' :: after =>
    (readValue? (skipBlanks after)).map fun (value, rest) => (⟨name, value⟩, rest)
  | _ => some (⟨name, ""⟩, rest)

def readAttributes? : Nat → List Char → Option (List Attribute × List Char)
  | 0, text => some ([], text)
  | fuel + 1, text =>
    let isBlankFirst := (text.head?.map isWhiteSpace).getD false
    let isNameNext := ((skipBlanks text).head?.map isAttributeNameChar).getD false
    if isBlankFirst && isNameNext then do
      let (first, rest) ← readAttribute? (skipBlanks text)
      let (others, rest) ← readAttributes? fuel rest
      return (first :: others, rest)
    else some ([], text)

def readStartTag? (text : List Char) : Option (StartTag × List Char) := do
  let (name, rest) ← readTagName? text
  let (attributes, rest) ← readAttributes? rest.length rest
  match skipBlanks rest with
  | '/' :: '>' :: rest => some (⟨name, attributes, true⟩, rest)
  | '>' :: rest => some (⟨name, attributes, false⟩, rest)
  | _ => none

def readToken? (text : List Char) : Option (Token × List Char) :=
  match text with
  | '<' :: '!' :: '-' :: '-' :: rest =>
    (splitAfter? ['-', '-', '>'] rest).map fun (_, rest) => (.comment, rest)
  | '<' :: '/' :: rest => do
    let (name, rest) ← readTagName? (skipBlanks rest)
    match skipBlanks rest with
    | '>' :: rest => some (.close name, rest)
    | _ => none
  | '<' :: rest => (readStartTag? rest).map fun (tag, rest) => (.start tag, rest)
  | _ => none

def tokensFrom : Nat → Nat → List Char → List (Nat × Token)
  | _, _, [] => []
  | line, pending, c :: rest =>
    let next := if c = '\n' then line + 1 else line
    match pending with
    | pending + 1 => tokensFrom next pending rest
    | 0 =>
      match readToken? (c :: rest) with
      | some (token, after) =>
        (line, token) :: tokensFrom next (rest.length - after.length) rest
      | none => tokensFrom next 0 rest

def tokens (text : String) : List (Nat × Token) :=
  tokensFrom 1 0 text.toList

end Seepage.Markup
