import Seepage.Text.Width

set_option autoImplicit false

namespace Seepage.Text

def startsFrom : Nat → List Char → List Nat
  | _, [] => []
  | offset, c :: rest =>
    let next := offset + c.utf8Size
    if c = '\n' then next :: startsFrom next rest else startsFrom next rest

def lineStarts (text : List Char) : List Nat :=
  0 :: startsFrom 0 text

def lastStart (offset : Nat) : Nat → Nat → List Nat → Nat × Nat
  | index, start, [] => (index, start)
  | index, start, next :: rest =>
    if next ≤ offset then lastStart offset (index + 1) next rest else (index, start)

def lineColumn (starts : List Nat) (pos : Nat) : Nat × Nat :=
  let offset := pos - 1
  let (index, start) := lastStart offset 0 0 starts.tail
  (index + 1, offset - start + 1)

def lineCount (text : List Char) : Nat :=
  let ends := text.countP (· = '\n')
  match text.getLast? with
  | none => 0
  | some c => if c = '\n' then ends else ends + 1

def displayPlace : List Char → Nat → Nat → Nat → Nat × Nat
  | [], _, line, column => (line, column)
  | c :: rest, bytes, line, column =>
    if bytes = 0 then (line, column)
    else
      let endsLine := c = '\n' || (c = '\r' && rest.head? != some '\n')
      if endsLine then displayPlace rest (bytes - c.utf8Size) (line + 1) 0
      else displayPlace rest (bytes - c.utf8Size) line (column + columnStep c)

end Seepage.Text
