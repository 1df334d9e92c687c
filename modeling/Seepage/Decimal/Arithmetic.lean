import Seepage.Decimal.Shortest

set_option autoImplicit false

namespace Seepage.Decimal

namespace Binary64

def isZero (value : Binary64) : Bool :=
  value.mantissa == 0

def mul? (a b : Binary64) : Option Binary64 :=
  ofQuotient? (a.num * b.num) (a.den * b.den)

def div? (a b : Binary64) : Option Binary64 :=
  ofQuotient? (a.num * b.den) (a.den * b.num)

def scaleTen? : Nat → Binary64 → Int → Option Binary64
  | 0, value, _ => some value
  | fuel + 1, value, exponent =>
    if exponent.natAbs ≤ 308 then do
      let power ← ofDecimal? 1 exponent.natAbs
      if exponent ≥ 0 then value.mul? power else value.div? power
    else if value.isZero then some value
    else if exponent ≥ 0 then none
    else do
      let power ← ofDecimal? 1 308
      scaleTen? fuel (← value.div? power) (exponent + 308)

end Binary64

def ofScaled? (significand : Nat) (exponent : Int) : Option Binary64 := do
  (← ofDecimal? significand 0).scaleTen? 4 exponent

def Digits.pointed (value : Digits) : String :=
  let places := value.magnitude + 1
  if value.digits = 0 then "0.0"
  else if places > 16 || places ≤ -5 then value.scientific
  else if value.exponent ≥ 0 then value.positional ++ ".0"
  else value.positional

end Seepage.Decimal
