import SimScript.Proofs.Scalar.Steps

/-!
# Scalars that count

A scalar that is a natural number has the height of that number.  What it counts is the
number itself, up to the largest count.
-/

namespace SimScript.Scalar

open Float.Model (UnpackedFloat)
open Float.Model.UnpackedFloat (Sign)

variable {x : Float} {number mantissa : Nat} {exponent : Int}

/-- A scalar that is a natural number; infinity stands where the first number is that is too big
for a double. -/
def IsNat (x : Float) (number : Nat) : Prop :=
  HasHeight x (size number 0)

instance : Decidable (IsNat x number) :=
  inferInstanceAs (Decidable (height? x.toModel.unpack = some (size number 0 : Int)))

theorem size_zero (number : Nat) : size number 0 = number * 2 ^ 1074 := by
  have bits : ((0 : Int) + 1074).toNat = 1074 := by decide
  rw [size, bits]

theorem size_zero_inj {other : Nat} (same : size number 0 = size other 0) : number = other := by
  rw [size_zero, size_zero] at same
  exact Nat.eq_of_mul_eq_mul_right (by positivity) same

/-- A double is rounded towards zero to how often the height of one goes into its own. -/
theorem roundToInt_eq (sign : Sign) (least : -1074 ≤ exponent) :
    UnpackedFloat.roundToInt sign mantissa exponent =
      sign.apply (size mantissa exponent / 2 ^ 1074 : Nat) := by
  unfold UnpackedFloat.roundToInt UnpackedFloat.decreaseExponent UnpackedFloat.shiftToExponent
    UnpackedFloat.ExtendedMantissa.ofMantissaAndAccuracy
  dsimp only
  rw [(shiftRight_spec _ _).1, Nat.shiftLeft_eq, size]
  congr 2
  rcases le_or_gt 0 exponent with whole | broken
  · obtain ⟨count, rfl⟩ := Int.eq_ofNat_of_zero_le whole
    have up : ((count : Int) - 0).toNat = count := by omega
    have down : (0 - ((count : Int) - count)).toNat = 0 := by omega
    have bits : ((count : Int) + 1074).toNat = count + 1074 := by omega
    rw [up, down, bits, pow_zero, Nat.div_one, pow_add, ← Nat.mul_assoc,
      Nat.mul_div_cancel _ (by positivity)]
  · obtain ⟨count, rfl⟩ := Int.exists_eq_neg_ofNat broken.le
    have up : (-(count : Int) - 0).toNat = 0 := by omega
    have down : (0 - (-(count : Int) - (0 : Nat))).toNat = count := by omega
    have bits : 1074 = count + (-(count : Int) + 1074).toNat := by omega
    rw [up, down, pow_zero, Nat.mul_one]
    conv_rhs => rw [bits, pow_add]
    rw [Nat.mul_div_mul_right _ _ (by positivity)]

theorem toNat_ofNatClamp (number : Nat) :
    (UInt64.ofNatClamp number).toNat = min number maxCount := by
  have most : maxCount = UInt64.size - 1 := rfl
  have pos : 0 < UInt64.size := by decide
  rw [most, UInt64.ofNatClamp]
  split
  · rw [UInt64.toNat_ofNatLT]
    omega
  · rw [UInt64.toNat_ofNatLT]
    omega

/-- Infinity has the height of a number that is too large to be a count. -/
theorem top_eq : ∃ count, top = size (2 ^ (64 + count)) 0 := by
  have bits : ((972 : Int) + 1074).toNat = 2046 := by decide
  exact ⟨960, by rw [top, size, size_zero, bits, ← pow_add, ← pow_add]⟩

/-- Cut to the largest count, the whole part of a natural number is that number, and infinity is
too large. -/
theorem min_toInt {x : UnpackedFloat} (unpacked : IsUnpacked x)
    (stands : height? x = some (size number 0 : Nat)) :
    min (x.toInt 0 (UInt64.size - 1)).toNat maxCount = min number maxCount := by
  cases x with
  | notANumber => cases stands
  | zero =>
      have none : size 0 0 = size number 0 := by
        rw [size, Nat.zero_mul]
        exact Int.ofNat.inj (Option.some.inj stands)
      rw [← size_zero_inj none]
      rfl
  | infinity sign =>
      have reaches : sign.apply top = size number 0 := Option.some.inj stands
      cases sign with
      | negative =>
          have below : -top = size number 0 := reaches
          have above := top_pos
          omega
      | positive =>
          have same : top = size number 0 := reaches
          obtain ⟨count, height⟩ := top_eq
          rw [height] at same
          rw [← size_zero_inj (Int.ofNat.inj same)]
          have large : maxCount ≤ 2 ^ (64 + count) :=
            (Nat.sub_le _ _).trans (Nat.pow_le_pow_right two_pos (Nat.le_add_right _ _))
          rw [min_eq_right large]
          rfl
  | finite sign mantissa exponent pos =>
      have reaches : sign.apply (size mantissa exponent) = size number 0 :=
        Option.some.inj stands
      have whole : (UnpackedFloat.finite sign mantissa exponent pos).toInt 0 (UInt64.size - 1) =
          sign.apply (size mantissa exponent / 2 ^ 1074 : Nat) :=
        roundToInt_eq sign unpacked.1.least
      cases sign with
      | negative =>
          have below : -(size mantissa exponent : Int) = size number 0 := reaches
          have above := unpacked.bounds.1
          omega
      | positive =>
          have same : size mantissa exponent = size number 0 := Int.ofNat.inj reaches
          rw [whole, same, size_zero, Nat.mul_div_cancel _ (by positivity)]
          rfl

namespace IsNat

theorem not_neg (counts : IsNat x number) : ¬x < 0 := by
  rw [HasHeight.lt_iff counts hasHeight_zero]
  exact not_lt.mpr (Int.natCast_nonneg _)

theorem toCount (counts : IsNat x number) : toCount x = min number maxCount := by
  have clamped : Scalar.toCount x =
      min (x.toModel.unpack.toInt 0 (UInt64.size - 1)).toNat maxCount :=
    toNat_ofNatClamp _
  rw [clamped, min_toInt (isUnpacked x) counts]

end IsNat

end SimScript.Scalar
