import Seepage.Text.Identifier

set_option autoImplicit false

namespace Seepage.Text

def wordOnly : List (Nat × Nat) := readRanges
  "BSqbIKraCIhdccBLqBzDNiaBTObcEVGozhzhz"

def identifierOnly : List (Nat × Nat) := readRanges
  "HbaBBsaBXoaBLlaEyaCMniCLdaJlodlCIvawaFVxbDraBSZzbdacaBdaBHDcaDTbzCBkcBzbESbhWnBrfjBEOtydyLbeJCkh
  BXqvDuEkBHQkBecvjbDAWhfIWhlBGFbGJh"

def isWordChar (c : Char) : Bool :=
  if c.val < 128 then c.isAlphanum || c == '_'
  else within wordOnly c.toNat || (isIdentifierPart c && !within identifierOnly c.toNat)

end Seepage.Text
