import SimScript.Text.Ascii

/-!
# Reading decimals

A decimal is an optional sign, digits with at most one point among them, and an
optional exponent; at least one digit stands before the exponent.  The words for
infinity and for no number are read in any case.
-/

namespace SimScript.Decimal

def countLimit : Nat := Nat.pow 2 64

def signedLimit : Nat := Nat.pow 2 63

def digitsValue (digits : List Char) : Nat :=
  digits.foldl (fun value digit => value * 10 + (digit.toNat - '0'.toNat)) 0

/-- The double nearest to `mantissa · 10 ^ exponent`; what is out of range becomes infinite or
zero. -/
def nearest (mantissa : Nat) (exponent : Int) : Float :=
  let magnitude := exponent + (Nat.toDigits 10 mantissa).length
  if mantissa = 0 then 0
  else if magnitude > 310 then 1 / 0
  else if magnitude < -330 then 0
  else
    match exponent with
    | .ofNat power => Float.ofScientific mantissa false power
    | .negSucc power => Float.ofScientific mantissa true (power + 1)

/-- The value of an optional sign and at least one digit, with nothing after them. -/
def readExponent? (chars : List Char) : Option Int :=
  let (negative, digits) :=
    match chars with
    | '-' :: rest => (true, rest)
    | '+' :: rest => (false, rest)
    | rest => (false, rest)
  if digits.isEmpty || !digits.all Char.isDigit then none
  else if negative then some (-(digitsValue digits : Int))
  else some (digitsValue digits)

def readUnsigned? (chars : List Char) : Option Float :=
  let whole := chars.takeWhile Char.isDigit
  let afterWhole := chars.dropWhile Char.isDigit
  let (fraction, afterFraction) :=
    match afterWhole with
    | '.' :: rest => (rest.takeWhile Char.isDigit, rest.dropWhile Char.isDigit)
    | rest => ([], rest)
  if whole.isEmpty && fraction.isEmpty then none
  else
    let mantissa := digitsValue (whole ++ fraction)
    match afterFraction with
    | [] => some (nearest mantissa (-(fraction.length : Int)))
    | mark :: rest =>
        if mark = 'e' ∨ mark = 'E' then
          (readExponent? rest).map fun exponent => nearest mantissa (exponent - fraction.length)
        else none

/-- Reads the magnitude of a scalar: a decimal or one of the words. -/
def readMagnitude? (chars : List Char) : Option Float :=
  let word := Text.lower (String.ofList chars)
  if word = "inf" ∨ word = "infinity" then some (1 / 0)
  else if word = "nan" then some (0 / 0)
  else readUnsigned? chars

def readScalar? (text : String) : Option Float :=
  match text.toList with
  | '-' :: rest => (readMagnitude? rest).map fun magnitude => -magnitude
  | '+' :: rest => readMagnitude? rest
  | chars => readMagnitude? chars

/-- Reads a count below `bound`: an optional plus sign and at least one digit. -/
def readCount? (bound : Nat) (text : String) : Option Nat :=
  let digits :=
    match text.toList with
    | '+' :: rest => rest
    | chars => chars
  if digits.isEmpty || !digits.all Char.isDigit then none
  else
    let value := digitsValue digits
    if value < bound then some value else none

end SimScript.Decimal
