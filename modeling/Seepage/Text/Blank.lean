import Seepage.Text.Ranges

set_option autoImplicit false

namespace Seepage.Text

def whiteSpaceRanges : List (Nat × Nat) :=
  [(0x09, 0x0d), (0x20, 0x20), (0x85, 0x85), (0xa0, 0xa0), (0x1680, 0x1680), (0x2000, 0x200a),
   (0x2028, 0x2029), (0x202f, 0x202f), (0x205f, 0x205f), (0x3000, 0x3000)]

def isWhiteSpace (c : Char) : Bool :=
  within whiteSpaceRanges c.toNat

def isLineBreak (c : Char) : Bool :=
  c == '\n' || c == '\r' || c == '\u2028' || c == '\u2029'

def isScriptBlank (c : Char) : Bool :=
  c == '\ufeff' || (isWhiteSpace c && c != '\u0085')

end Seepage.Text
