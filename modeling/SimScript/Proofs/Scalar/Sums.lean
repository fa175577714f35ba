import Mathlib
import SimScript.Proofs.Scalar.Order

/-!
# Sums of points in time

A sum of two doubles is rounded and packed.  Neither takes it below zero or makes it no
number, so the sum of two points in time is another one.
-/

namespace SimScript.Scalar

open Float.Model (UnpackedFloat)
open Float.Model.UnpackedFloat (packComponents)

variable {spec : Float.Model.Format} {x y : UnpackedFloat}

theorem place?_round (mantissa : Nat) (exponent : Int) :
    (place? (UnpackedFloat.round spec .positive mantissa exponent)).isSome = true := by
  unfold UnpackedFloat.round UnpackedFloat.roundWithAccuracy
  dsimp only
  split <;> rfl

theorem place?_normalize {mantissa : Int} (exponent : Int) (nonneg : 0 ≤ mantissa) :
    (place? (UnpackedFloat.normalize spec mantissa exponent .positive)).isSome = true := by
  unfold UnpackedFloat.normalize
  split
  case h_1 below => exact absurd nonneg (not_le.mpr (compare_lt_iff_lt.mp below))
  case h_2 => rfl
  case h_3 => exact place?_round _ _

theorem place?_add (left : (place? x).isSome = true) (right : (place? y).isSome = true) :
    (place? (UnpackedFloat.add spec x y)).isSome = true := by
  rcases x with (_ | _) | _ | _ | ⟨_ | _, _, _, _⟩ <;>
    rcases y with (_ | _) | _ | _ | ⟨_ | _, _, _, _⟩ <;>
    cases left <;> cases right <;> try rfl
  case zero.zero first second => cases first <;> cases second <;> rfl
  case finite.positive.finite.positive =>
    exact place?_normalize _ (Int.add_nonneg (Int.natCast_nonneg _) (Int.natCast_nonneg _))

/-- A double that is no number, or below zero, is unpacked from such bits only. -/
theorem place?_unpack {exponent : BitVec spec.exponentBits}
    {mantissa : BitVec spec.mantissaBitsWithoutImplicit}
    (number : exponent = -1#_ → mantissa = 0#_) :
    (place? (UnpackedFloat.unpack spec (packComponents spec .positive exponent mantissa))).isSome =
      true := by
  simp only [UnpackedFloat.unpack, UnpackedFloat.unpackExponent_packComponents,
    UnpackedFloat.unpackMantissa_packComponents, UnpackedFloat.unpackSign_packComponents,
    UnpackedFloat.Sign.ofBitVec_toBitVec]
  split
  case isTrue full => rw [if_pos (number full)]; rfl
  case isFalse =>
    split
    · split <;> rfl
    · rfl

theorem ofNat_ne_full {bits biased : Nat} (small : biased + 1 < 2 ^ bits) :
    BitVec.ofNat bits biased ≠ -1#_ := by
  intro full
  have same := congrArg BitVec.toNat full
  rw [BitVec.toNat_ofNat, Nat.mod_eq_of_lt (by omega), BitVec.neg_one_eq_allOnes,
    BitVec.toNat_allOnes] at same
  omega

/-- Packing a double rounds it to infinity at worst. -/
theorem place?_pack (above : (place? x).isSome = true) :
    (place? (UnpackedFloat.unpack spec (UnpackedFloat.pack spec x))).isSome = true := by
  rcases x with (_ | _) | _ | sign | ⟨_ | _, mantissa, exponent, positive⟩ <;> cases above
  case infinity.positive => exact place?_unpack fun _ => rfl
  case zero =>
    rw [UnpackedFloat.pack, UnpackedFloat.unpack_packedZero]
    rfl
  case finite.positive =>
    unfold UnpackedFloat.pack
    dsimp only
    split
    case isTrue => exact place?_unpack fun _ => rfl
    case isFalse small =>
      split
      · exact place?_unpack fun full => absurd full (ofNat_ne_full (not_le.mp small))
      · exact place?_unpack fun full =>
          absurd full (ofNat_ne_full (Nat.one_lt_two_pow spec.he.ne'))

theorem IsTime.add {x y : Float} (left : IsTime x) (right : IsTime y) : IsTime (x + y) := by
  rw [isTime_iff] at left right ⊢
  simp only [Stands, ← Option.isSome_iff_exists] at left right ⊢
  exact place?_pack (place?_add left right)

end SimScript.Scalar
