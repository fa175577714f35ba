import SimScript.Decimal.Reader

/-!
# Decimals with digits of 64 bits

A decimal can be kept as a whole number of 64 bits and a power of ten.  Its double
comes from the double of the whole number by multiplying or dividing with the double
of the power; each of the steps is rounded, so the outcome may lie a little beside
the nearest double.
-/

namespace SimScript.Decimal

/-- The decimal `digits · 10 ^ exponent`, of which 64 bits hold the digits. -/
structure Scaled where
  digits : Nat
  exponent : Int
  deriving DecidableEq

/-- Appends digits to a number up to the first that leads out of 64 bits; gives the digits that are
left too. -/
def appendDigits (number : Nat) : List Char → Nat × List Char
  | [] => (number, [])
  | digit :: rest =>
      let longer := number * 10 + (digit.toNat - '0'.toNat)
      if longer < countLimit then appendDigits longer rest else (number, digit :: rest)

/-- What is kept of a decimal with these digits before and after its point.  A digit before the
point that finds no room raises the exponent, and one after the point is dropped. -/
def Scaled.ofDigits (whole fraction : List Char) : Scaled :=
  let (kept, left) := appendDigits 0 whole
  let (digits, dropped) := appendDigits kept fraction
  ⟨digits, (left.length : Int) + dropped.length - fraction.length⟩

def powerLimit : Nat := 308

/-- Divides a double by a power of ten, in steps if the power has no double. -/
def divideByPower (value : Float) (power : Nat) : Float :=
  if power ≤ powerLimit then value / nearest 1 power
  else if value == 0 then value
  else divideByPower (value / nearest 1 powerLimit) (power - powerLimit)
termination_by power
decreasing_by simp only [powerLimit] at *; omega

/-- Multiplies a double by a power of ten; there is no outcome beyond the largest double. -/
def multiplyByPower? (value : Float) (power : Nat) : Option Float :=
  if power ≤ powerLimit then
    let product := value * nearest 1 power
    if product.isInf then none else some product
  else if value == 0 then some value
  else none

def Scaled.toFloat? (decimal : Scaled) : Option Float :=
  let value := nearest decimal.digits 0
  match decimal.exponent with
  | .ofNat power => multiplyByPower? value power
  | .negSucc power => some (divideByPower value (power + 1))

end SimScript.Decimal
