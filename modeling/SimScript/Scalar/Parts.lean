/-!
# The parts of a scalar

Scalars are doubles.  A finite one is, up to its sign, a whole mantissa times a
power of two; everything exact about scalars is computed from these parts.
-/

namespace SimScript.Scalar

/-- What a double stands for: no number, an infinity, or `mantissa · 2 ^ exponent` with a sign. -/
inductive Parts where
  | notANumber
  | infinite (negative : Bool)
  | finite (negative : Bool) (mantissa : Nat) (exponent : Int)
  deriving DecidableEq

def leastExponent : Int := -1074

/-- The mantissa of a double that is not among the smallest is at least this. -/
def leadingBit : Nat := Nat.pow 2 52

def Parts.ofBits (bits : Nat) : Parts :=
  let negative := bits / Nat.pow 2 63 % 2 = 1
  let biased := bits / leadingBit % Nat.pow 2 11
  let fraction := bits % leadingBit
  if biased = 2047 then
    if fraction = 0 then .infinite negative else .notANumber
  else if biased = 0 then .finite negative fraction leastExponent
  else .finite negative (leadingBit + fraction) (leastExponent + (biased - 1 : Nat))

def parts (x : Float) : Parts :=
  Parts.ofBits x.toBits.toNat

end SimScript.Scalar
