import SimScript.Decimal.Shortest

/-!
# Scalars as text

Scalars are written with the fewest digits that read back and never with an
exponent: whole numbers have no decimal point, and zero keeps its sign.
-/

namespace SimScript.Decimal

def digitText (count : Nat) : String :=
  String.ofList (Nat.toDigits 10 count)

def positional (decimal : Digits) : String :=
  let digits := Nat.toDigits 10 decimal.digits
  match decimal.exponent with
  | .ofNat zeros => String.ofList (digits ++ List.replicate zeros '0')
  | .negSucc places =>
      let places := places + 1
      if digits.length > places then
        let whole := digits.length - places
        String.ofList (digits.take whole ++ '.' :: digits.drop whole)
      else
        String.ofList ('0' :: '.' :: (List.replicate (places - digits.length) '0' ++ digits))

def scalarText (x : Float) : String :=
  match Scalar.parts x with
  | .notANumber => "NaN"
  | .infinite negative => if negative then "-inf" else "inf"
  | .finite negative mantissa exponent =>
      let magnitude := if mantissa = 0 then "0" else positional (shortest mantissa exponent)
      if negative then "-" ++ magnitude else magnitude

end SimScript.Decimal
