import Mathlib
import SimScript.Scalar.Arithmetic

/-!
# Rounding to doubles

Every double is a multiple of the least one above zero, so its size is a natural number.
A size is rounded to one that a double has, and no double stands between the two.
-/

namespace SimScript.Scalar

open Float.Model (Format UnpackedFloat totalExponent)
open Float.Model.UnpackedFloat
open Float.Model.UnpackedFloat (Sign ExtendedMantissa)

/-! ## Rounding a mantissa -/

/-- Shifting drops bits, and remembers whether any of them was set. -/
theorem shiftRight_spec (mantissa count : Nat) :
    let shifted := (⟨mantissa, false, false⟩ : ExtendedMantissa) >>> count
    shifted.mantissa = mantissa / 2 ^ count ∧
      (2 ^ count ∣ mantissa → shifted.roundBit = false ∧ shifted.stickyBit = false) := by
  induction count with
  | zero => exact ⟨by simp [HShiftRight.hShiftRight, Nat.repeat], fun _ => ⟨rfl, rfl⟩⟩
  | succ count induction =>
      have one : (⟨mantissa, false, false⟩ : ExtendedMantissa) >>> (count + 1) =
          ((⟨mantissa, false, false⟩ : ExtendedMantissa) >>> count).shiftRightOne := rfl
      rw [one]
      generalize (⟨mantissa, false, false⟩ : ExtendedMantissa) >>> count = shifted at induction ⊢
      obtain ⟨quotient, clean⟩ := induction
      constructor
      · rw [ExtendedMantissa.shiftRightOne, quotient, Nat.div_div_eq_div_mul, Nat.pow_succ]
      · rintro ⟨factor, rfl⟩
        have even : shifted.mantissa = 2 * factor := by
          rw [quotient, Nat.pow_succ, Nat.mul_assoc, Nat.mul_div_cancel_left _ (by positivity)]
        obtain ⟨round, sticky⟩ := clean ⟨2 * factor, by ring⟩
        simp [ExtendedMantissa.shiftRightOne, even, round, sticky]

theorem roundedMantissa_bounds (extended : ExtendedMantissa) :
    extended.mantissa ≤ extended.roundedMantissa ∧
      extended.roundedMantissa ≤ extended.mantissa + 1 := by
  obtain ⟨mantissa, _ | _, _ | _⟩ := extended <;>
    simp [ExtendedMantissa.roundedMantissa, ExtendedMantissa.accuracy,
      Accuracy.roundToNearestEven]
  omega

theorem roundedMantissa_of_clean {extended : ExtendedMantissa}
    (round : extended.roundBit = false) (sticky : extended.stickyBit = false) :
    extended.roundedMantissa = extended.mantissa := by
  obtain ⟨mantissa, _ | _, _ | _⟩ := extended <;> first | rfl | simp at round sticky

/-- No number is between a quotient and what it is rounded to. -/
theorem roundedMantissa_shiftRight (mantissa count number : Nat) :
    let rounded := ((⟨mantissa, false, false⟩ : ExtendedMantissa) >>> count).roundedMantissa
    (number * 2 ^ count ≤ mantissa → number ≤ rounded) ∧
      (mantissa ≤ number * 2 ^ count → rounded ≤ number) := by
  intro rounded
  obtain ⟨quotient, clean⟩ := shiftRight_spec mantissa count
  obtain ⟨least, most⟩ := roundedMantissa_bounds
    ((⟨mantissa, false, false⟩ : ExtendedMantissa) >>> count)
  rw [quotient] at least most
  have pos : 0 < 2 ^ count := by positivity
  constructor
  · intro below
    exact ((Nat.le_div_iff_mul_le pos).mpr below).trans least
  · intro above
    by_cases divides : 2 ^ count ∣ mantissa
    · obtain ⟨round, sticky⟩ := clean divides
      have same : rounded = mantissa / 2 ^ count :=
        (roundedMantissa_of_clean round sticky).trans quotient
      rw [same]
      exact Nat.div_le_of_le_mul (by rwa [Nat.mul_comm])
    · refine most.trans (Nat.succ_le_of_lt (Nat.div_lt_of_lt_mul ?_))
      rw [Nat.mul_comm]
      refine lt_of_le_of_ne above ?_
      rintro rfl
      exact divides (Nat.dvd_mul_left _ _)

/-! ## Sizes -/

/-- A mantissa and an exponent that a double has room for, but for exponents that are too big. -/
structure Fits (mantissa : Nat) (exponent : Int) : Prop where
  room : mantissa < 2 ^ 53
  least : -1074 ≤ exponent
  full : 2 ^ 52 ≤ mantissa ∨ exponent = -1074

/-- How many of the least doubles above zero make up a number. -/
def size (mantissa : Nat) (exponent : Int) : Nat :=
  mantissa * 2 ^ (exponent + 1074).toNat

/-- Nothing that a mantissa has room for is between the two sizes. -/
def RoundsTo (before after : Nat) : Prop :=
  ∀ mantissa count, mantissa < 2 ^ 53 →
    (mantissa * 2 ^ count ≤ before → mantissa * 2 ^ count ≤ after) ∧
      (before ≤ mantissa * 2 ^ count → after ≤ mantissa * 2 ^ count)

variable {mantissa count : Nat} {exponent : Int}

/-- A number that is rounded with as many bits as there is room for is rounded to the next sizes. -/
theorem roundsTo_of_nearest {before rounded : Nat} (full : count = 0 ∨ 2 ^ (52 + count) ≤ before)
    (nearest : ∀ number, (number * 2 ^ count ≤ before → number ≤ rounded) ∧
      (before ≤ number * 2 ^ count → rounded ≤ number)) :
    RoundsTo before (rounded * 2 ^ count) := by
  intro number shift room
  -- A number of finer steps has less room than what was rounded, so it is on the near side.
  rcases Nat.lt_or_ge shift count with coarse | fine
  · have big : 2 ^ (52 + count) ≤ before := full.resolve_left (by omega)
    have small : number * 2 ^ shift < 2 ^ (52 + count) := by
      calc number * 2 ^ shift < 2 ^ 53 * 2 ^ shift := by gcongr
        _ = 2 ^ (53 + shift) := (pow_add 2 53 shift).symm
        _ ≤ 2 ^ (52 + count) := Nat.pow_le_pow_right two_pos (by omega)
    constructor
    · intro _
      have least : 2 ^ 52 ≤ rounded := (nearest (2 ^ 52)).1 (by rwa [← pow_add])
      calc number * 2 ^ shift ≤ 2 ^ (52 + count) := small.le
        _ = 2 ^ 52 * 2 ^ count := pow_add 2 52 count
        _ ≤ rounded * 2 ^ count := by gcongr
    · intro above
      exact absurd (big.trans above) small.not_ge
  · obtain ⟨more, rfl⟩ := Nat.exists_eq_add_of_le fine
    have multiple : number * 2 ^ (count + more) = number * 2 ^ more * 2 ^ count := by ring
    rw [multiple]
    exact ⟨fun below => Nat.mul_le_mul_right _ ((nearest _).1 below),
      fun above => Nat.mul_le_mul_right _ ((nearest _).2 above)⟩

theorem log2_mul_two_pow (pos : 0 < mantissa) (count : Nat) :
    (mantissa * 2 ^ count).log2 = mantissa.log2 + count := by
  induction count with
  | zero => simp
  | succ count induction =>
      have twice : mantissa * 2 ^ (count + 1) = 2 * (mantissa * 2 ^ count) := by ring
      rw [twice, Nat.log2_two_mul (by positivity), induction, Nat.add_assoc]

/-- The exponent that a number has in the end. -/
theorem targetExponent_eq :
    Format.binary64.targetExponent (totalExponent mantissa exponent) =
      max (mantissa.log2 + exponent - 52) (-1074) := by
  simp only [Format.targetExponent, totalExponent, Format.mantissaBits, Format.minExponent]
  norm_num
  omega

/-- A rounded mantissa with one bit too many is a power of two, and loses no bit that is set. -/
theorem shiftToTargetExponent_fits (least : -1074 ≤ exponent) (room : mantissa ≤ 2 ^ 53)
    (full : 2 ^ 52 ≤ mantissa ∨ exponent = -1074) :
    let shifted := shiftToTargetExponent .binary64 mantissa exponent .exact
    Fits shifted.1.mantissa shifted.2 ∧
      size shifted.1.mantissa shifted.2 = size mantissa exponent := by
  dsimp only [shiftToTargetExponent, shiftToExponent, ExtendedMantissa.ofMantissaAndAccuracy]
  rw [targetExponent_eq, (shiftRight_spec _ _).1]
  rcases room.lt_or_eq with room | rfl
  · have bits : mantissa.log2 ≤ 52 := by
      rcases Nat.eq_zero_or_pos mantissa with rfl | pos
      · simp
      · exact Nat.le_of_lt_succ ((Nat.log2_lt pos.ne').mpr room)
    have still : (max (mantissa.log2 + exponent - 52) (-1074) - exponent).toNat = 0 := by omega
    simp only [still, pow_zero, Nat.div_one, Nat.cast_zero, add_zero, and_true]
    exact ⟨room, least, full⟩
  · have once : (max ((2 ^ 53 : Nat).log2 + exponent - 52) (-1074) - exponent).toNat = 1 := by
      rw [Nat.log2_two_pow]
      omega
    rw [once]
    refine ⟨⟨by norm_num, by push_cast; omega, .inl (by norm_num)⟩, ?_⟩
    have more : (exponent + (1 : Nat) + 1074).toNat = (exponent + 1074).toNat + 1 := by omega
    rw [size, size, more, pow_succ]
    ring

/-- A number whose exponent is not too big is rounded to one that fits. -/
theorem roundWithAccuracy_spec (sign : Sign) (pos : 0 < mantissa) (least : -1074 ≤ exponent)
    (small : exponent ≤ max (mantissa.log2 + exponent - 52) (-1074)) :
    ∃ rounded final above,
      roundWithAccuracy .binary64 sign mantissa exponent .exact = .finite sign rounded final above ∧
      Fits rounded final ∧ RoundsTo (size mantissa exponent) (size rounded final) := by
  -- `count` bits are dropped, and then there are 53 of them, unless the exponent is the least one.
  obtain ⟨count, reached⟩ := Int.le.dest small
  have counted : (max (mantissa.log2 + exponent - 52) (-1074) - exponent).toNat = count := by omega
  obtain ⟨rounded, isRounded⟩ : ∃ rounded, rounded =
    ((⟨mantissa, false, false⟩ : ExtendedMantissa) >>> count).roundedMantissa := ⟨_, rfl⟩
  have nearest := roundedMantissa_shiftRight mantissa count
  rw [← isRounded] at nearest
  have low : 2 ^ mantissa.log2 ≤ mantissa := Nat.log2_self_le pos.ne'
  have high : mantissa < 2 ^ (mantissa.log2 + 1) := Nat.lt_log2_self
  have full : exponent + count = -1074 ∨ 2 ^ (52 + count) ≤ mantissa := by
    rcases le_or_gt (exponent + count) (-1074) with least | more
    · exact .inl (by omega)
    · refine .inr (le_trans (Nat.pow_le_pow_right two_pos ?_) low)
      omega
  have room : rounded ≤ 2 ^ 53 := by
    refine (nearest _).2 (high.le.trans ?_)
    rw [← pow_add]
    exact Nat.pow_le_pow_right two_pos (by omega)
  have roundsTo : RoundsTo (size mantissa exponent) (size rounded (exponent + count)) := by
    have shift : (exponent + count + 1074).toNat = count + (exponent + 1074).toNat := by omega
    rw [size, size, shift]
    apply roundsTo_of_nearest
    · rcases full with least | full
      · exact .inl (by omega)
      · refine .inr ?_
        rw [← Nat.add_assoc, pow_add]
        exact Nat.mul_le_mul_right _ full
    · intro number
      rw [pow_add, ← Nat.mul_assoc, Nat.mul_le_mul_right_iff (by positivity),
        Nat.mul_le_mul_right_iff (by positivity)]
      exact nearest number
  obtain ⟨fits, same⟩ := shiftToTargetExponent_fits (by omega) room
    (full.symm.imp_left fun full => (nearest _).1 (by rwa [← pow_add]))
  have positive : 1 ≤ size rounded (exponent + count) := by
    have whole : 1 * 2 ^ 0 ≤ size mantissa exponent := by
      rw [size]
      exact Nat.mul_le_mul pos Nat.one_le_two_pow
    simpa using (roundsTo 1 0 (by norm_num)).1 whole
  have first : shiftToTargetExponent .binary64 mantissa exponent .exact =
      ((⟨mantissa, false, false⟩ : ExtendedMantissa) >>> count, exponent + count) := by
    rw [shiftToTargetExponent, shiftToExponent, targetExponent_eq, counted]
    rfl
  have above :
      (shiftToTargetExponent .binary64 rounded (exponent + count) .exact).1.mantissa ≠ 0 := by
    intro none
    rw [← same, none, size, Nat.zero_mul] at positive
    cases positive
  refine ⟨_, _, Nat.pos_of_ne_zero above, ?_, fits, same ▸ roundsTo⟩
  simp only [roundWithAccuracy, first, ← isRounded]
  exact dif_neg above

/-- A number is rounded to one that fits. -/
theorem round_spec (sign : Sign) (pos : 0 < mantissa) (least : -1074 ≤ exponent) :
    ∃ rounded final above,
      UnpackedFloat.round .binary64 sign mantissa exponent = .finite sign rounded final above ∧
      Fits rounded final ∧ RoundsTo (size mantissa exponent) (size rounded final) := by
  obtain ⟨count, counted⟩ : ∃ count, count =
    (exponent - max (mantissa.log2 + exponent - 52) (-1074)).toNat := ⟨_, rfl⟩
  have bits := log2_mul_two_pow pos count
  have positive : 0 < mantissa * 2 ^ count := by positivity
  have same : size (mantissa * 2 ^ count) (exponent - count) = size mantissa exponent := by
    have shift : (exponent + 1074).toNat = count + (exponent - count + 1074).toNat := by omega
    rw [size, size, shift, pow_add, Nat.mul_assoc]
  have small : exponent - count ≤
      max ((mantissa * 2 ^ count).log2 + (exponent - count) - 52) (-1074) := by
    rw [bits]
    push_cast
    omega
  have rounds := roundWithAccuracy_spec sign positive (by omega) small
  rw [same] at rounds
  simpa only [UnpackedFloat.round, decreaseExponent, targetExponent_eq, ← counted, Nat.shiftLeft_eq]
    using rounds

end SimScript.Scalar
