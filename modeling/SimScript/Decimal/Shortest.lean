import SimScript.Scalar.Parts

/-!
# The fewest digits that read back

A positive double `mantissa · 2 ^ exponent` is what every real of a small
interval around it rounds to.  The shortest decimal is the point of that
interval on the coarsest decimal grid that has one, and the nearest such point
where the grid has two; of two equally near points it is the upper.
-/

namespace SimScript.Decimal

/-- The decimal `digits · 10 ^ exponent`. -/
structure Digits where
  digits : Nat
  exponent : Int
  deriving DecidableEq

/-- The reals that round to one double, as fractions of one denominator: the two ends, the double
itself, and whether the ends belong to it. -/
structure Interval where
  low : Nat
  value : Nat
  high : Nat
  denominator : Nat
  closed : Bool

/-- The rounding interval of `mantissa · 2 ^ exponent`.  Below a power of two the neighbours are
twice as dense, so the lower half is half as wide. -/
def Interval.around (mantissa : Nat) (exponent : Int) : Interval :=
  let narrow := mantissa = Scalar.leadingBit ∧ exponent ≠ Scalar.leastExponent
  let up := (exponent - 2).toNat
  let down := (2 - exponent).toNat
  { low := (4 * mantissa - if narrow then 1 else 2) * Nat.pow 2 up
    value := 4 * mantissa * Nat.pow 2 up
    high := (4 * mantissa + 2) * Nat.pow 2 up
    denominator := Nat.pow 2 down
    closed := mantissa % 2 = 0 }

def Interval.scaled (interval : Interval) (grid : Int) : Interval :=
  let up := Nat.pow 10 (-grid).toNat
  { interval with
    low := interval.low * up
    value := interval.value * up
    high := interval.high * up
    denominator := interval.denominator * Nat.pow 10 grid.toNat }

def Interval.holds (interval : Interval) (point : Nat) : Bool :=
  let scaledPoint := point * interval.denominator
  if interval.closed then interval.low ≤ scaledPoint && scaledPoint ≤ interval.high
  else interval.low < scaledPoint && scaledPoint < interval.high

/-- The point that stands for the double among the whole numbers next to it, if one is in the
interval. -/
def Interval.point? (interval : Interval) : Option Nat :=
  let below := interval.value / interval.denominator
  let above := below + 1
  match interval.holds below, interval.holds above with
  | false, false => none
  | true, false => some below
  | false, true => some above
  | true, true =>
      if 2 * (interval.value % interval.denominator) < interval.denominator then some below
      else some above

/-- Tries the decimal grids from `10 ^ grid` downwards, `tries` of them. -/
def searchGrid (interval : Interval) : (tries : Nat) → (grid : Int) → Digits
  | 0, grid => ⟨interval.value / interval.denominator, grid⟩
  | tries + 1, grid =>
      match (interval.scaled grid).point? with
      | some point => ⟨point, grid⟩
      | none => searchGrid interval tries (grid - 1)

/-- A grid no finer than the one the search has to start from. -/
def startGrid (interval : Interval) : Int :=
  if interval.denominator ≤ interval.value then
    (Nat.toDigits 10 (interval.value / interval.denominator)).length
  else
    2 - (Nat.toDigits 10 (interval.denominator / interval.value)).length

/-- The shortest decimal of a positive double.  Seventeen digits always suffice, and the search
starts at most three grids above the first digit. -/
def shortest (mantissa : Nat) (exponent : Int) : Digits :=
  let interval := Interval.around mantissa exponent
  searchGrid interval 21 (startGrid interval)

end SimScript.Decimal
