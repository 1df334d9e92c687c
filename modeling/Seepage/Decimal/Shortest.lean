set_option autoImplicit false

namespace Seepage.Decimal

structure Binary64 where
  mantissa : Nat
  exponent : Int
deriving DecidableEq, Repr, Inhabited

structure Digits where
  digits : Nat
  exponent : Int
deriving DecidableEq, Repr, Inhabited

def scaleDown (base num den : Nat) : Int → Nat × Nat
  | .ofNat power => (num, den * Nat.pow base power)
  | .negSucc power => (num * Nat.pow base (power + 1), den)

def roundDiv (num den : Nat) : Nat :=
  let quotient := num / den
  let twice := 2 * (num % den)
  if twice > den || (twice == den && quotient % 2 == 1) then quotient + 1 else quotient

def minExponent : Int := -1074

def binaryExponent (num den : Nat) : Int :=
  let guess : Int := (Nat.log2 num : Int) - Nat.log2 den - 52
  let (a, b) := scaleDown 2 num den guess
  let exact := if a < b * 0x10_0000_0000_0000 then guess - 1 else guess
  max exact minExponent

def ofQuotient? (num den : Nat) : Option Binary64 :=
  if num = 0 then some ⟨0, minExponent⟩
  else
    let exponent := binaryExponent num den
    let (a, b) := scaleDown 2 num den exponent
    let rounded := roundDiv a b
    let value : Binary64 :=
      if rounded = 0x20_0000_0000_0000 then ⟨0x10_0000_0000_0000, exponent + 1⟩ else ⟨rounded, exponent⟩
    if value.exponent > 971 then none else some value

def nearestNat (n : Nat) : Nat :=
  match ofQuotient? n 1 with
  | some ⟨mantissa, .ofNat power⟩ => mantissa * Nat.pow 2 power
  | _ => n

def ofDigits (base : Nat) (digits : List Nat) : Nat :=
  digits.foldl (fun value digit => nearestNat (value * base + digit)) 0

def ofDecimal? (digits : Nat) (exponent : Int) : Option Binary64 :=
  let length := (Nat.toDigits 10 digits).length
  if digits = 0 then some ⟨0, minExponent⟩
  else if exponent + length > 400 then none
  else if exponent + length < -400 then some ⟨0, minExponent⟩
  else
    let (num, den) := scaleDown 10 digits 1 (-exponent)
    ofQuotient? num den

namespace Binary64

def num (value : Binary64) : Nat :=
  match value.exponent with
  | .ofNat power => value.mantissa * Nat.pow 2 power
  | .negSucc _ => value.mantissa

def den (value : Binary64) : Nat :=
  match value.exponent with
  | .ofNat _ => 1
  | .negSucc power => Nat.pow 2 (power + 1)

def leading (num den : Nat) : Int :=
  let guess : Int := ((Nat.toDigits 10 num).length : Int) - (Nat.toDigits 10 den).length
  let (a, b) := scaleDown 10 num den guess
  if a < b then guess - 1 else guess

-- Whether `candidate * 10 ^ exponent` rounds to the value: it lies within half a step of it, an end
-- of the interval counting when the mantissa is even. The step below a power of two is half as
-- wide.
def roundsBack (value : Binary64) (candidate : Nat) (exponent : Int) : Bool :=
  let (num, den) := scaleDown 10 value.num value.den exponent
  let unit :=
    match value.exponent with
    | .ofNat power => Nat.pow 2 power
    | .negSucc _ => 1
  let (step, stepDen) := scaleDown 10 unit value.den exponent
  let point := 4 * candidate * den * stepDen
  let centre := 4 * num * stepDen
  let quarter := step * den
  let below := if value.mantissa == 0x10_0000_0000_0000 && value.exponent > minExponent then quarter
    else 2 * quarter
  let above := 2 * quarter
  if value.mantissa % 2 == 0 then centre ≤ point + below && point ≤ centre + above
  else centre < point + below && point < centre + above

def onGrid? (value : Binary64) (exponent : Int) : Option Nat :=
  let (num, den) := scaleDown 10 value.num value.den exponent
  let low := num / den
  let nearest := roundDiv num den
  let other := if nearest = low then low + 1 else low
  if value.roundsBack nearest exponent then some nearest
  else if value.roundsBack other exponent then some other
  else none

def stripZeros : Nat → Nat → Int → Digits
  | 0, digits, exponent => ⟨digits, exponent⟩
  | fuel + 1, digits, exponent =>
    if digits % 10 = 0 then stripZeros fuel (digits / 10) (exponent + 1) else ⟨digits, exponent⟩

def shortestFrom (value : Binary64) (lead : Int) : Nat → Nat → Digits
  | _, 0 => ⟨0, 0⟩
  | count, tries + 1 =>
    let exponent := lead + 1 - count
    match value.onGrid? exponent with
    | some digits => stripZeros 20 digits exponent
    | none => shortestFrom value lead (count + 1) tries

def shortest (value : Binary64) : Digits :=
  if value.mantissa = 0 then ⟨0, 0⟩
  else shortestFrom value (leading value.num value.den) 1 17

end Binary64

namespace Digits

def zeros (count : Nat) : List Char :=
  List.replicate count '0'

def positional (value : Digits) : String :=
  let digits := Nat.toDigits 10 value.digits
  match value.exponent with
  | .ofNat power => String.ofList (digits ++ zeros (if value.digits = 0 then 0 else power))
  | .negSucc power =>
    let places := power + 1
    if places < digits.length then
      let whole := digits.length - places
      String.ofList (digits.take whole ++ '.' :: digits.drop whole)
    else String.ofList ('0' :: '.' :: (zeros (places - digits.length) ++ digits))

def magnitude (value : Digits) : Int :=
  value.exponent + (Nat.toDigits 10 value.digits).length - 1

def scientific (value : Digits) : String :=
  let power := value.magnitude
  let sign := if power < 0 then "-" else "+"
  let mantissa :=
    match Nat.toDigits 10 value.digits with
    | [] => "0"
    | [digit] => String.ofList [digit]
    | first :: rest => String.ofList (first :: '.' :: rest)
  mantissa ++ "e" ++ sign ++ toString power.natAbs

end Digits

def plain : Option Binary64 → String
  | some value => value.shortest.positional
  | none => "inf"

end Seepage.Decimal
