import SimScript.Scalar.Parts

/-!
# Scalar arithmetic beyond the four operations

Counting with scalars, the remainder of a division, the larger and the smaller
of two, and the clamp to the unit interval.
-/

namespace SimScript.Scalar

def maxCount : Nat := Nat.pow 2 64 - 1

/-- The whole part of a scalar as a count; what is below zero or no number counts zero, and what
is too large counts `maxCount`. -/
def toCount (x : Float) : Nat :=
  x.toUInt64.toNat

def ofCount (count : Nat) : Float :=
  Float.ofNat count

def isWhole (x : Float) : Bool :=
  match parts x with
  | .notANumber | .infinite _ => false
  | .finite _ _ _ => x.floor == x

/-- The scalar `± mantissa · 2 ^ exponent`, for a mantissa and an exponent of some double. -/
def compose (negative : Bool) (mantissa : Nat) (exponent : Int) : Float :=
  let magnitude := (Float.ofNat mantissa).scaleB exponent
  if negative then -magnitude else magnitude

/-- The exact remainder of a division that is rounded towards zero; it has the sign of the
dividend.  An infinite dividend or a zero divisor leaves no number. -/
def remainder (dividend divisor : Float) : Float :=
  match parts dividend, parts divisor with
  | .finite negative mantissa exponent, .finite _ divisorMantissa divisorExponent =>
      if divisorMantissa = 0 then dividend / divisor * 0
      else
        let least := min exponent divisorExponent
        let scaled := mantissa * Nat.pow 2 (exponent - least).toNat
        let scaledDivisor := divisorMantissa * Nat.pow 2 (divisorExponent - least).toNat
        compose negative (scaled % scaledDivisor) least
  | .finite _ _ _, .infinite _ => dividend
  | _, _ => dividend + divisor - (dividend + divisor)

/-- The larger of two scalars; one that is no number gives way to the other. -/
def larger (x y : Float) : Float :=
  if x.isNaN then y else if y > x then y else x

def smaller (x y : Float) : Float :=
  if x.isNaN then y else if y < x then y else x

/-- A scalar moved into `[0, 1]`; what is no number stays. -/
def clampUnit (x : Float) : Float :=
  if x < 0 then 0 else if x > 1 then 1 else x

end SimScript.Scalar
