import SimScript.Proofs.Scalar.Order
import SimScript.Proofs.Scalar.Rounding

/-!
# Steps of one size

A double that is a number has a height, by which doubles are in order.  A step up does not
lead further down, nor a step down further up, although the sum is rounded; and there are
only so many heights.
-/

namespace SimScript.Scalar

open Float.Model (Format UnpackedFloat)
open Float.Model.UnpackedFloat (Sign packComponents)

/-! ## Heights -/

/-- The height of infinity is that of the first number that is too big for a double. -/
@[irreducible]
def top : Int := size (2 ^ 52) 972

/-- How many steps of the least size a double is above zero. -/
def height? : UnpackedFloat → Option Int
  | .notANumber => none
  | .zero _ => some 0
  | .infinity sign => some (sign.apply top)
  | .finite sign mantissa exponent _ => some (sign.apply (size mantissa exponent))

/-- A double is as it is when it is unpacked. -/
def IsUnpacked : UnpackedFloat → Prop
  | .finite _ mantissa exponent _ => Fits mantissa exponent ∧ exponent ≤ 971
  | .notANumber | .zero _ | .infinity _ => True

section Sizes

variable {mantissa other : Nat} {exponent otherExponent : Int}

theorem fits_top : Fits (2 ^ 52) 972 := ⟨by norm_num, by norm_num, .inl le_rfl⟩

theorem size_pos (pos : 0 < mantissa) : 0 < size mantissa exponent :=
  Nat.mul_pos pos (by positivity)

theorem size_le_size (less : mantissa ≤ other) : size mantissa exponent ≤ size other exponent :=
  Nat.mul_le_mul_right _ less

theorem natCast_size :
    (size mantissa exponent : Int) = mantissa * 2 ^ (exponent + 1074).toNat := by
  rw [size, Nat.cast_mul, Nat.cast_pow, Nat.cast_ofNat]

theorem top_pos : 0 < top := by
  rw [top]
  exact Int.natCast_pos.mpr (size_pos (by positivity))

theorem Fits.size_lt_size (fits : Fits mantissa exponent) (others : Fits other otherExponent)
    (less : exponent < otherExponent) : size mantissa exponent < size other otherExponent := by
  have least := fits.least
  have bits : (otherExponent + 1074).toNat =
      (exponent + 1074).toNat + 1 + (otherExponent - exponent - 1).toNat := by omega
  calc size mantissa exponent
      < 2 ^ 53 * 2 ^ (exponent + 1074).toNat :=
        Nat.mul_lt_mul_of_pos_right fits.room (by positivity)
    _ = 2 ^ 52 * 2 ^ ((exponent + 1074).toNat + 1) := by ring
    _ ≤ 2 ^ 52 * 2 ^ (otherExponent + 1074).toNat :=
        Nat.mul_le_mul_left _ (Nat.pow_le_pow_right two_pos (by omega))
    _ ≤ size other otherExponent :=
        Nat.mul_le_mul_right _ (others.full.resolve_right (by omega))

theorem Fits.size_lt_top (fits : Fits mantissa exponent) (small : exponent ≤ 971) :
    (size mantissa exponent : Int) < top := by
  rw [top]
  exact Int.ofNat_lt.mpr (fits.size_lt_size fits_top (by omega))

theorem Fits.top_le_size (fits : Fits mantissa exponent) (big : 971 < exponent) :
    top ≤ size mantissa exponent := by
  rw [top, Int.ofNat_le]
  rcases lt_or_ge 972 exponent with bigger | least
  · exact (fits_top.size_lt_size fits bigger).le
  · obtain rfl : exponent = 972 := by omega
    exact size_le_size (fits.full.resolve_right (by norm_num))

theorem Fits.compare_eq (fits : Fits mantissa exponent) (others : Fits other otherExponent) :
    (compare exponent otherExponent).then (compare mantissa other) =
      compare (size mantissa exponent : Int) (size other otherExponent) := by
  rcases lt_trichotomy exponent otherExponent with less | rfl | more
  · rw [compare_lt_iff_lt.mpr less]
    exact (compare_lt_iff_lt.mpr (Int.ofNat_lt.mpr (fits.size_lt_size others less))).symm
  · rw [compare_eq_iff_eq.mpr rfl, Ordering.eq_then]
    have pos : 0 < 2 ^ (exponent + 1074).toNat := by positivity
    rcases lt_trichotomy mantissa other with less | rfl | more
    · rw [compare_lt_iff_lt.mpr less]
      exact (compare_lt_iff_lt.mpr
        (Int.ofNat_lt.mpr (Nat.mul_lt_mul_of_pos_right less pos))).symm
    · simp
    · rw [compare_gt_iff_gt.mpr more]
      exact (compare_gt_iff_gt.mpr
        (Int.ofNat_lt.mpr (Nat.mul_lt_mul_of_pos_right more pos))).symm
  · rw [compare_gt_iff_gt.mpr more]
    exact (compare_gt_iff_gt.mpr (Int.ofNat_lt.mpr (others.size_lt_size fits more))).symm

end Sizes

section Heights

variable {x y : UnpackedFloat} {first second : Int}

theorem compare_neg (first second : Int) : compare (-first) (-second) = compare second first := by
  rcases lt_trichotomy first second with less | rfl | more
  · rw [compare_gt_iff_gt.mpr (neg_lt_neg less), compare_gt_iff_gt.mpr less]
  · rw [compare_eq_iff_eq.mpr rfl, compare_eq_iff_eq.mpr rfl]
  · rw [compare_lt_iff_lt.mpr (neg_lt_neg more), compare_lt_iff_lt.mpr more]

/-- The height of a finite double is between zero and the top. -/
theorem IsUnpacked.bounds {sign : Sign} {mantissa : Nat} {exponent : Int} {pos : 0 < mantissa}
    (unpacked : IsUnpacked (.finite sign mantissa exponent pos)) :
    0 < (size mantissa exponent : Int) ∧ (size mantissa exponent : Int) < top :=
  ⟨Int.natCast_pos.mpr (size_pos pos), unpacked.1.size_lt_top unpacked.2⟩

theorem height?_bounds (unpacked : IsUnpacked x) (stands : height? x = some first) :
    -top ≤ first ∧ first ≤ top := by
  have pos := top_pos
  rcases x with (_ | _) | _ | _ | ⟨_ | _, mantissa, exponent, above⟩ <;> cases stands <;>
    try have bounds := unpacked.bounds
  all_goals
    try dsimp only [Sign.apply]
    omega

theorem compare_of_heights (left : IsUnpacked x) (right : IsUnpacked y)
    (stands : height? x = some first) (others : height? y = some second) :
    x.compare y = some (compare first second) := by
  have pos := top_pos
  rcases x with (_ | _) | _ | _ | ⟨_ | _, mantissa, exponent, above⟩ <;>
    rcases y with (_ | _) | _ | _ | ⟨_ | _, other, otherExponent, otherAbove⟩ <;>
    cases stands <;> cases others <;>
    (try have leftBounds := left.bounds) <;> (try have rightBounds := right.bounds)
  -- Only two finite doubles of one sign are told apart by exponents and mantissas.
  case finite.negative.finite.negative =>
      refine congrArg some ?_
      rw [left.1.compare_eq right.1, ← Std.OrientedCmp.eq_swap]
      exact (compare_neg _ _).symm
  case finite.positive.finite.positive => exact congrArg some (left.1.compare_eq right.1)
  all_goals
    try dsimp only [Sign.apply]
    first
      | exact congrArg some (compare_lt_iff_lt.mpr (by omega)).symm
      | exact congrArg some (compare_gt_iff_gt.mpr (by omega)).symm
      | exact congrArg some (compare_eq_iff_eq.mpr (by omega)).symm

end Heights

/-! ## Packing -/

section Packing

/-- The highest bit of a mantissa is not packed. -/
theorem toNat_implicit (mantissa : BitVec 52) :
    (1#1 ++ mantissa).toNat = 2 ^ 52 + mantissa.toNat := by
  rw [BitVec.toNat_append, Nat.shiftLeft_eq, Nat.mul_comm,
    ← Nat.two_pow_add_eq_or_of_lt mantissa.isLt]
  rfl

theorem isUnpacked_unpack (bits : BitVec Format.binary64.numBits) :
    IsUnpacked (UnpackedFloat.unpack .binary64 bits) := by
  have bias : Format.binary64.exponentBias = 1023 := rfl
  have room := (UnpackedFloat.unpackMantissa bits).isLt
  have range := (UnpackedFloat.unpackExponent bits).isLt
  unfold UnpackedFloat.unpack
  dsimp only at room range ⊢
  rw [bias]
  split
  case isTrue => split <;> trivial
  case isFalse unfull =>
      have full : (UnpackedFloat.unpackExponent bits).toNat ≠ 2047 := by
        intro same
        exact unfull (BitVec.eq_of_toNat_eq same)
      split
      case isTrue least =>
          split
          · trivial
          · rw [least]
            refine ⟨⟨by omega, by simp, .inr (by simp)⟩, by simp⟩
      case isFalse more =>
          have positive : (UnpackedFloat.unpackExponent bits).toNat ≠ 0 := by
            intro same
            exact more (BitVec.eq_of_toNat_eq same)
          have implicit : (1#1 ++ UnpackedFloat.unpackMantissa bits).toNat =
              2 ^ 52 + (UnpackedFloat.unpackMantissa bits).toNat := toNat_implicit _
          exact ⟨⟨by omega, by omega, .inl (by omega)⟩, by omega⟩

/-- The height that a double has when it has been packed. -/
def packedHeight? (x : UnpackedFloat) : Option Int :=
  height? (UnpackedFloat.unpack .binary64 (UnpackedFloat.pack .binary64 x))

theorem packedHeight?_notANumber : packedHeight? .notANumber = none := by
  rw [packedHeight?, UnpackedFloat.pack, UnpackedFloat.unpack_packedNaN, height?]

theorem packedHeight?_zero (sign : Sign) : packedHeight? (.zero sign) = some 0 := by
  rw [packedHeight?, UnpackedFloat.pack, UnpackedFloat.unpack_packedZero, height?]

theorem height?_packedInfinity (sign : Sign) :
    height? (UnpackedFloat.unpack .binary64 (UnpackedFloat.packedInfinity .binary64 sign)) =
      some (sign.apply top) := by
  simp [UnpackedFloat.packedInfinity, UnpackedFloat.unpack, height?]

theorem packedHeight?_infinity (sign : Sign) :
    packedHeight? (.infinity sign) = some (sign.apply top) :=
  height?_packedInfinity sign

theorem height?_normal {biased mantissa : Nat} (sign : Sign) (least : 0 < biased)
    (most : biased < 2047) (low : 2 ^ 52 ≤ mantissa) (high : mantissa < 2 ^ 53) :
    height? (UnpackedFloat.unpack .binary64
        (packComponents .binary64 sign (BitVec.ofNat 11 biased) (BitVec.ofNat 52 mantissa))) =
      some (sign.apply (size mantissa (biased - 1075))) := by
  have bias : Format.binary64.exponentBias = 1023 := rfl
  have range : (BitVec.ofNat 11 biased).toNat = biased := by
    rw [BitVec.toNat_ofNat, Nat.mod_eq_of_lt (by omega)]
  have implicit : 2 ^ 52 + (BitVec.ofNat 52 mantissa).toNat = mantissa := by
    rw [BitVec.toNat_ofNat]
    omega
  have unfull : BitVec.ofNat 11 biased ≠ -1#11 := by
    intro full
    have same : (BitVec.ofNat 11 biased).toNat = 2047 := congrArg BitVec.toNat full
    omega
  have more : BitVec.ofNat 11 biased ≠ 0#11 := by
    intro none
    have same : (BitVec.ofNat 11 biased).toNat = 0 := congrArg BitVec.toNat none
    omega
  simp only [UnpackedFloat.unpack, UnpackedFloat.unpackExponent_packComponents,
    UnpackedFloat.unpackMantissa_packComponents, UnpackedFloat.unpackSign_packComponents,
    Sign.ofBitVec_toBitVec, if_neg unfull, if_neg more, height?, toNat_implicit, implicit, range,
    bias]
  rfl

theorem height?_subnormal {mantissa : Nat} (sign : Sign) (pos : 0 < mantissa)
    (high : mantissa < 2 ^ 52) :
    height? (UnpackedFloat.unpack .binary64
        (packComponents .binary64 sign 0#11 (BitVec.ofNat 52 mantissa))) =
      some (sign.apply (size mantissa (-1074))) := by
  have bias : Format.binary64.exponentBias = 1023 := rfl
  have whole : (BitVec.ofNat 52 mantissa).toNat = mantissa := by
    rw [BitVec.toNat_ofNat, Nat.mod_eq_of_lt high]
  have above : BitVec.ofNat 52 mantissa ≠ 0#52 := by
    intro none
    have same : (BitVec.ofNat 52 mantissa).toNat = 0 := congrArg BitVec.toNat none
    omega
  have unfull : 0#11 ≠ -1#11 := by decide
  simp only [UnpackedFloat.unpack, UnpackedFloat.unpackExponent_packComponents,
    UnpackedFloat.unpackMantissa_packComponents, UnpackedFloat.unpackSign_packComponents,
    Sign.ofBitVec_toBitVec, if_neg unfull, dif_neg above, if_true, height?, whole, bias]
  rfl

/-- A double that is packed keeps its height, but heights above the top are lost. -/
theorem packedHeight?_finite {mantissa : Nat} {exponent : Int} (sign : Sign) (pos : 0 < mantissa)
    (fits : Fits mantissa exponent) :
    packedHeight? (.finite sign mantissa exponent pos) =
      some (sign.apply (min (size mantissa exponent) top)) := by
  have bias : Format.binary64.exponentBias = 1023 := rfl
  have bits : Format.binary64.mantissaBits = 53 := rfl
  have least := fits.least
  unfold packedHeight? UnpackedFloat.pack
  dsimp only
  rw [bias, bits]
  split
  case isTrue big =>
      rw [min_eq_right (fits.top_le_size (by omega))]
      exact height?_packedInfinity sign
  case isFalse small =>
      rw [min_eq_left (fits.size_lt_top (by omega)).le]
      obtain ⟨biased, isBiased⟩ : ∃ biased : Nat,
        (exponent + (1023 : Nat) + (52 : Nat)).toNat = biased := ⟨_, rfl⟩
      obtain rfl : exponent = biased - 1075 := by omega
      rw [isBiased]
      split
      case isTrue normal =>
          have low := Nat.log2_self_le pos.ne'
          rw [Nat.succ.inj normal] at low
          exact height?_normal sign (by omega) (by omega) low fits.room
      case isFalse subnormal =>
          have high : mantissa < 2 ^ 52 := by
            by_contra low
            have same := (Nat.log2_eq_iff pos.ne').mpr ⟨not_lt.mp low, fits.room⟩
            exact subnormal (by rw [same])
          have only : (biased - 1075 : Int) = -1074 := fits.full.resolve_left (by omega)
          rw [only]
          exact height?_subnormal sign pos high

end Packing

/-! ## Sums -/

section Sums

variable {before after value : Int}

/-- A height that there is room for. -/
def IsHeight (value : Int) : Prop :=
  value ≤ top ∧ -top ≤ value ∧
    ∃ (sign : Sign) (mantissa count : Nat), mantissa < 2 ^ 53 ∧
      value = sign.apply (mantissa * 2 ^ count : Nat)

/-- No height is between the two. -/
def Nearest (before after : Int) : Prop :=
  ∀ value, IsHeight value → (value ≤ before → value ≤ after) ∧ (before ≤ value → after ≤ value)

theorem IsHeight.neg (height : IsHeight value) : IsHeight (-value) := by
  obtain ⟨most, least, sign, mantissa, count, room, rfl⟩ := height
  refine ⟨by omega, by omega, -sign, mantissa, count, room, ?_⟩
  cases sign
  · exact Int.neg_neg _
  · rfl

theorem Nearest.neg (nearest : Nearest before after) : Nearest (-before) (-after) := by
  intro value height
  obtain ⟨above, below⟩ := nearest (-value) height.neg
  exact ⟨fun less => by have := below (by omega); omega,
    fun more => by have := above (by omega); omega⟩

theorem RoundsTo.nearest {before after : Nat} (rounds : RoundsTo before after) (pos : 0 < before) :
    Nearest before (min after top) := by
  rintro _ ⟨most, least, sign, mantissa, count, room, rfl⟩
  obtain ⟨above, below⟩ := rounds mantissa count room
  have top := top_pos
  cases sign <;> dsimp only [Sign.apply] at most ⊢ <;> omega

theorem nearest_round {mantissa : Nat} {exponent : Int} (sign : Sign) (pos : 0 < mantissa)
    (least : -1074 ≤ exponent) :
    ∃ rounded, packedHeight? (UnpackedFloat.round .binary64 sign mantissa exponent) =
        some (sign.apply rounded) ∧
      Nearest (size mantissa exponent) rounded := by
  obtain ⟨rounded, final, above, made, fits, rounds⟩ := round_spec sign pos least
  refine ⟨min (size rounded final) top, ?_, rounds.nearest (size_pos pos)⟩
  rw [made, packedHeight?_finite sign above fits]

theorem nearest_normalize {number exponent : Int} (least : -1074 ≤ exponent) :
    ∃ rounded, packedHeight? (UnpackedFloat.normalize .binary64 number exponent .positive) =
        some rounded ∧
      Nearest (number * 2 ^ (exponent + 1074).toNat) rounded := by
  unfold UnpackedFloat.normalize
  split
  case h_1 below =>
      obtain ⟨mantissa, rfl⟩ := Int.exists_eq_neg_ofNat (compare_lt_iff_lt.mp below).le
      have pos : 0 < mantissa := by
        have := compare_lt_iff_lt.mp below
        omega
      obtain ⟨rounded, height, nearest⟩ := nearest_round .negative pos least
      have restored : (- -(mantissa : Int)).toNat = mantissa := by omega
      refine ⟨-rounded, by rw [restored]; exact height, ?_⟩
      rw [Int.neg_mul, ← natCast_size]
      exact nearest.neg
  case h_2 zero =>
      rw [compare_eq_iff_eq.mp zero, Int.zero_mul]
      exact ⟨0, packedHeight?_zero _, fun _ _ => ⟨id, id⟩⟩
  case h_3 above =>
      obtain ⟨mantissa, rfl⟩ := Int.eq_ofNat_of_zero_le (compare_gt_iff_gt.mp above).le
      have pos : 0 < mantissa := Int.ofNat_lt.mp (compare_gt_iff_gt.mp above)
      obtain ⟨rounded, height, nearest⟩ := nearest_round .positive pos least
      refine ⟨rounded, by rw [Int.toNat_natCast]; exact height, ?_⟩
      rw [← natCast_size]
      exact nearest

theorem size_decreaseExponent {mantissa : Nat} {exponent least : Int} (low : -1074 ≤ least)
    (less : least ≤ exponent) :
    (UnpackedFloat.decreaseExponent mantissa exponent least).1 * 2 ^ (least + 1074).toNat =
      size mantissa exponent := by
  have bits : (exponent + 1074).toNat = (exponent - least).toNat + (least + 1074).toNat := by omega
  rw [size, bits, pow_add, UnpackedFloat.decreaseExponent, Nat.shiftLeft_eq, Nat.mul_assoc]

/-- The sum of two finite doubles is next to what it is rounded to. -/
theorem nearest_add_finite {sign otherSign : Sign} {mantissa other : Nat}
    {exponent otherExponent : Int} {pos : 0 < mantissa} {otherPos : 0 < other}
    (fits : Fits mantissa exponent) (others : Fits other otherExponent) :
    ∃ rounded, packedHeight? (UnpackedFloat.add .binary64 (.finite sign mantissa exponent pos)
        (.finite otherSign other otherExponent otherPos)) = some rounded ∧
      Nearest (sign.apply (size mantissa exponent) + otherSign.apply (size other otherExponent))
        rounded := by
  have low : -1074 ≤ min exponent otherExponent := le_min fits.least others.least
  dsimp only [UnpackedFloat.add]
  obtain ⟨rounded, height, nearest⟩ := nearest_normalize low
  refine ⟨rounded, height, ?_⟩
  have apply_mul (sign : Sign) (number : Int) (factor : Int) :
      sign.apply number * factor = sign.apply (number * factor) := by
    cases sign
    · exact neg_mul _ _
    · rfl
  rw [Int.add_mul, apply_mul, apply_mul] at nearest
  rw [← size_decreaseExponent low (min_le_left _ _), ← size_decreaseExponent low (min_le_right _ _)]
  push_cast
  exact nearest

theorem isHeight_size {mantissa : Nat} {exponent : Int} {pos : 0 < mantissa} (sign : Sign)
    (unpacked : IsUnpacked (.finite sign mantissa exponent pos)) :
    IsHeight (sign.apply (size mantissa exponent)) := by
  obtain ⟨least, most⟩ := height?_bounds unpacked rfl
  exact ⟨most, least, sign, mantissa, _, unpacked.1.room, rfl⟩

/-- A step up does not lead down, and a step down not up. -/
theorem packedHeight?_add {x y : UnpackedFloat} {first step last : Int} (left : IsUnpacked x)
    (right : IsUnpacked y) (stands : height? x = some first) (steps : height? y = some step)
    (leads : packedHeight? (UnpackedFloat.add .binary64 x y) = some last) :
    (0 < step → first ≤ last) ∧ (step < 0 → last ≤ first) := by
  have pos := top_pos
  obtain ⟨least, most⟩ := height?_bounds left stands
  cases y with
  | notANumber => cases steps
  | zero =>
      cases steps
      exact ⟨fun up => absurd up (lt_irrefl 0), fun down => absurd down (lt_irrefl 0)⟩
  | infinity sign =>
      have reaches : last = sign.apply top := by
        have lost : packedHeight? .notANumber ≠ some last := by
          rw [packedHeight?_notANumber]
          exact nofun
        have kept (sum : UnpackedFloat.add .binary64 x (.infinity sign) = .infinity sign) :
            last = sign.apply top := by
          rw [sum, packedHeight?_infinity] at leads
          exact (Option.some.inj leads).symm
        cases x with
        | notANumber => cases stands
        | infinity other =>
            cases other <;> cases sign
            · exact kept rfl
            · exact absurd leads lost
            · exact absurd leads lost
            · exact kept rfl
        | zero => exact kept rfl
        | finite => exact kept rfl
      cases steps
      cases sign <;> dsimp only [Sign.apply] at reaches ⊢ <;> omega
  | finite sign other otherExponent otherPos =>
      cases x with
      | notANumber => cases stands
      | infinity =>
          dsimp only [UnpackedFloat.add] at leads
          rw [packedHeight?_infinity] at leads
          obtain rfl := Option.some.inj (stands.symm.trans leads)
          exact ⟨fun _ => le_rfl, fun _ => le_rfl⟩
      | zero =>
          dsimp only [UnpackedFloat.add] at leads
          rw [packedHeight?_finite _ _ right.1,
            min_eq_left (right.1.size_lt_top right.2).le] at leads
          obtain rfl := Option.some.inj (steps.symm.trans leads)
          cases stands
          exact ⟨le_of_lt, le_of_lt⟩
      | finite =>
          obtain ⟨rounded, height, nearest⟩ := nearest_add_finite left.1 right.1
          obtain rfl := Option.some.inj (leads.symm.trans height)
          cases stands
          cases steps
          obtain ⟨above, below⟩ := nearest _ (isHeight_size _ left)
          exact ⟨fun up => above (by omega), fun down => below (by omega)⟩

end Sums

/-! ## Steps -/

/-- A scalar that is a number has a height. -/
def HasHeight (x : Float) (height : Int) : Prop :=
  height? x.toModel.unpack = some height

variable {x y step : Float} {first second last : Int}

theorem lt_asymm (below : x < y) : ¬ y < x := by
  intro above
  rw [lt_iff_compare, compare_swap, lt_iff_compare.mp below] at above
  cases above

theorem isUnpacked (x : Float) : IsUnpacked x.toModel.unpack :=
  isUnpacked_unpack _

theorem hasHeight_zero : HasHeight 0 0 := by
  rfl

theorem exists_hasHeight_of_le (below : x ≤ y) : (∃ height, HasHeight x height) ∧
    ∃ height, HasHeight y height := by
  rw [le_iff_compare] at below
  unfold HasHeight
  generalize x.toModel.unpack = x at below ⊢
  generalize y.toModel.unpack = y at below ⊢
  cases x <;> cases y <;> first | exact ⟨⟨_, rfl⟩, _, rfl⟩ | cases below

theorem exists_hasHeight_of_lt (below : x < y) : (∃ height, HasHeight x height) ∧
    ∃ height, HasHeight y height := by
  apply exists_hasHeight_of_le
  rw [le_iff_compare, lt_iff_compare.mp below]
  rfl

namespace HasHeight

theorem bounds (stands : HasHeight x first) : -top ≤ first ∧ first ≤ top :=
  height?_bounds (isUnpacked x) stands

theorem lt_iff (left : HasHeight x first) (right : HasHeight y second) :
    x < y ↔ first < second := by
  rw [lt_iff_compare, compare_of_heights (isUnpacked x) (isUnpacked y) left right,
    Option.some.injEq, compare_lt_iff_lt]

theorem le_iff (left : HasHeight x first) (right : HasHeight y second) :
    x ≤ y ↔ first ≤ second := by
  rw [le_iff_compare, compare_of_heights (isUnpacked x) (isUnpacked y) left right,
    Option.any_some, Ordering.isLE_iff_ne_gt]
  exact compare_le_iff_le

theorem beq_iff (left : HasHeight x first) (right : HasHeight y second) :
    (x == y) = true ↔ first = second := by
  have compares : (x == y) = (x.toModel.unpack.compare y.toModel.unpack == some .eq) := rfl
  rw [compares, compare_of_heights (isUnpacked x) (isUnpacked y) left right, beq_iff_eq,
    Option.some.injEq, compare_eq_iff_eq]

/-- A step up that leads elsewhere leads up, and a step down that leads elsewhere leads down. -/
theorem add (left : HasHeight x first) (leads : HasHeight (x + step) last)
    (elsewhere : ¬(x + step == x) = true) :
    (0 < step → first < last) ∧ (step < 0 → last < first) := by
  have other : last ≠ first := fun same => elsewhere ((leads.beq_iff left).mpr same)
  constructor
  · intro up
    obtain ⟨_, height, steps⟩ := exists_hasHeight_of_lt up
    have above := (hasHeight_zero.lt_iff steps).mp up
    have := (packedHeight?_add (isUnpacked x) (isUnpacked step) left steps leads).1 above
    omega
  · intro down
    obtain ⟨⟨height, steps⟩, _⟩ := exists_hasHeight_of_lt down
    have below := (steps.lt_iff hasHeight_zero).mp down
    have := (packedHeight?_add (isUnpacked x) (isUnpacked step) left steps leads).2 below
    omega

end HasHeight

end SimScript.Scalar
