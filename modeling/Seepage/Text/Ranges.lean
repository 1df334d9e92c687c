set_option autoImplicit false

namespace Seepage.Text

def readNumbers : Nat → List Char → List Nat
  | _, [] => []
  | high, c :: rest =>
    if c.isUpper then readNumbers (26 * (high + (c.toNat - 'A'.toNat))) rest
    else (high + (c.toNat - 'a'.toNat)) :: readNumbers 0 rest

-- Ranges in order, given by two numbers each: how far it starts behind the end of the one before,
-- and how far it reaches from there.
def rangesFrom (last : Nat) : List Nat → List (Nat × Nat)
  | gap :: reach :: rest =>
    (last + gap, last + gap + reach) :: rangesFrom (last + gap + reach) rest
  | _ => []

def readRanges (text : String) : List (Nat × Nat) :=
  rangesFrom 0 (readNumbers 0 (text.toList.filter Char.isAlpha))

def within (ranges : List (Nat × Nat)) (code : Nat) : Bool :=
  ranges.any fun (low, high) => low ≤ code && code ≤ high

end Seepage.Text
