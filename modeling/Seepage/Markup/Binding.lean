import Seepage.Graph.Edge
import Seepage.Markup.Token

set_option autoImplicit false

namespace Seepage.Markup

structure Binding where
  file : String
  name : String
  line : Nat
  element : String
  inputType : String
  handler : Option String
deriving DecidableEq, Repr, Inhabited

namespace Binding

def cmp (a b : Binding) : Ordering :=
  compare a.file b.file |>.then (compare a.name b.name) |>.then (compare a.line b.line)
    |>.then (compare a.element b.element) |>.then (compare a.inputType b.inputType)
    |>.then (compare a.handler b.handler)

def le (a b : Binding) : Bool :=
  (a.cmp b).isLE

end Binding

namespace StartTag

def attribute? (tag : StartTag) (name : String) : Option String :=
  (tag.attributes.find? (·.name == name)).map (·.value)

def isForm (tag : StartTag) : Bool :=
  ["form", "g-form"].contains tag.name

def isInput (tag : StartTag) : Bool :=
  ["input", "g-input"].contains tag.name

def submitHandler? (tag : StartTag) : Option String :=
  ["bind:submit", "bindsubmit", "catch:submit", "catchsubmit"].findSome? tag.attribute?

def inputType (tag : StartTag) : String :=
  if (tag.attribute? "password").isSome then "password"
  else
    match tag.attribute? "type" with
    | some "safe-password" => "password"
    | some "" | none => "text"
    | some kind => kind

def inputName? (tag : StartTag) : Option String :=
  if tag.isInput then
    ((tag.attribute? "name").or (tag.attribute? "id")).filter (· != "")
  else none

end StartTag

open Text (isWhiteSpace isWordChar)

def isNameStart (c : Char) : Bool :=
  c.isAlpha || c == '_' || c == '$'

def isNamePart (c : Char) : Bool :=
  isWordChar c || c == '$'

def isName : List Char → Bool
  | [] => false
  | c :: rest => isNameStart c && rest.all isNamePart

def segments : List Char → List (List Char)
  | [] => [[]]
  | c :: rest =>
    match c, segments rest with
    | '.', parts => [] :: parts
    | c, part :: parts => (c :: part) :: parts
    | c, [] => [[c]]

def trim (text : List Char) : List Char :=
  ((text.dropWhile isWhiteSpace).reverse.dropWhile isWhiteSpace).reverse

def boundName? (value : String) : Option String := do
  match trim value.toList with
  | '\x7b' :: '\x7b' :: rest =>
    match rest.reverse with
    | '\x7d' :: '\x7d' :: inner =>
      let path := segments (trim inner.reverse)
      if path.all isName then path.getLast?.map .ofList else none
    | _ => none
  | _ => none

def StartTag.boundNames (tag : StartTag) : List String :=
  tag.inputName?.toList ++
    (tag.attributes.filter fun given => "model:".toList.isPrefixOf given.name.toList).filterMap
      fun given => boundName? given.value

def bindingsFrom (file : String) : List (Option String) → List (Nat × Token) → List Binding
  | _, [] => []
  | forms, (_, .comment) :: rest => bindingsFrom file forms rest
  | forms, (_, .close name) :: rest =>
    bindingsFrom file (if ["form", "g-form"].contains name then forms.drop 1 else forms) rest
  | forms, (line, .start tag) :: rest =>
    if tag.isForm then
      bindingsFrom file (if tag.selfClosing then forms else tag.submitHandler? :: forms) rest
    else
      tag.boundNames.map (fun name =>
        ⟨file, name, line, tag.name, tag.inputType, forms.findSome? id⟩) ++
        bindingsFrom file forms rest

def scan (file text : String) : List Binding :=
  sortDistinct Binding.le (bindingsFrom file [] (tokens text))

end Seepage.Markup
