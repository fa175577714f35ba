import Mathlib.Data.Prod.Lex
import SimScript.Scalar.Arithmetic

/-!
# The order of scalars

Doubles are not in a linear order, since some of them are no numbers.  Points in time are
those that are not below zero; they are ordered by their places.
-/

namespace SimScript.Scalar

open Float.Model (UnpackedFloat)
open Float.Model.UnpackedFloat (Sign)

theorem compare_swap (x y : UnpackedFloat) : y.compare x = (x.compare y).map Ordering.swap := by
  have parts (exponent otherExponent : Int) (mantissa otherMantissa : Nat) :
      (compare otherExponent exponent).then (compare otherMantissa mantissa) =
        ((compare exponent otherExponent).then (compare mantissa otherMantissa)).swap := by
    rw [Ordering.swap_then, ← Std.OrientedCmp.eq_swap, ← Std.OrientedCmp.eq_swap]
  rcases x with (_ | _) | _ | _ | ⟨_ | _, _, _, _⟩ <;>
    rcases y with (_ | _) | _ | _ | ⟨_ | _, _, _, _⟩ <;> try rfl
  case finite.negative.finite.negative => exact congrArg (some ·.swap) (parts _ _ _ _)
  case finite.positive.finite.positive => exact congrArg some (parts _ _ _ _)

/-! ## Places -/

/-- Where a double stands among those that are not below zero: zero comes first, then the finite
ones by exponent and mantissa, then infinity. -/
abbrev Place := Lex (Nat × Lex (Int × Nat))

def place? : UnpackedFloat → Option Place
  | .zero _ => some (toLex (0, toLex (0, 0)))
  | .finite .positive mantissa exponent _ => some (toLex (1, toLex (exponent, mantissa)))
  | .infinity .positive => some (toLex (2, toLex (0, 0)))
  | .finite .negative _ _ _ | .infinity .negative | .notANumber => none

/-- Doubles that have places compare as these do. -/
theorem compare_of_places {x y : UnpackedFloat} {first second : Place}
    (left : place? x = some first) (right : place? y = some second) :
    x.compare y = some (compare first second) := by
  rcases x with (_ | _) | _ | _ | ⟨_ | _, _, _, _⟩ <;>
    rcases y with (_ | _) | _ | _ | ⟨_ | _, _, _, _⟩ <;>
    cases left <;> cases right <;> rfl

theorem isSome_place? (x : UnpackedFloat) (zero : Sign) :
    (place? x).isSome = ((UnpackedFloat.zero zero).compare x).any (·.isLE) := by
  rcases x with (_ | _) | _ | _ | ⟨_ | _, _, _, _⟩ <;> rfl

theorem isNaN_or_below_or_place? (x : UnpackedFloat) (zero : Sign) :
    x.isNaN = true ∨ x.compare (.zero zero) = some .lt ∨ (place? x).isSome = true := by
  rcases x with (_ | _) | _ | _ | ⟨_ | _, _, _, _⟩ <;>
    first | exact .inl rfl | exact .inr (.inl rfl) | exact .inr (.inr rfl)

/-! ## Points in time -/

/-- A point in time is not below zero. -/
def IsTime (x : Float) : Prop := 0 ≤ x

/-- The place of a point in time. -/
def Stands (x : Float) (place : Place) : Prop :=
  place? x.toModel.unpack = some place

section Order

variable {x y z : Float} {first second : Place}

theorem le_iff_compare :
    x ≤ y ↔ (x.toModel.unpack.compare y.toModel.unpack).any (·.isLE) = true :=
  decide_eq_true_iff

theorem lt_iff_compare : x < y ↔ x.toModel.unpack.compare y.toModel.unpack = some .lt := by
  rw [← beq_iff_eq]
  exact decide_eq_true_iff

theorem isTime_iff : IsTime x ↔ ∃ place, Stands x place := by
  have zero : (0 : Float).toModel.unpack = .zero .positive := rfl
  rw [IsTime, le_iff_compare, zero, ← isSome_place?, Option.isSome_iff_exists]
  rfl

theorem Stands.le_iff (left : Stands x first) (right : Stands y second) :
    x ≤ y ↔ first ≤ second := by
  rw [le_iff_compare, compare_of_places left right, Option.any_some, Ordering.isLE_iff_ne_gt]
  exact compare_le_iff_le

theorem Stands.lt_iff (left : Stands x first) (right : Stands y second) :
    x < y ↔ first < second := by
  rw [lt_iff_compare, compare_of_places left right, Option.some.injEq, compare_lt_iff_lt]

theorem not_ge_of_lt (ahead : x < y) : ¬x ≥ y := by
  intro come
  have above := le_iff_compare.mp come
  rw [compare_swap, lt_iff_compare.mp ahead] at above
  cases above

namespace IsTime

theorem isNaN_eq_false (time : IsTime x) : x.isNaN = false := by
  obtain ⟨place, stands⟩ := isTime_iff.mp time
  unfold Stands at stands
  have same : x.isNaN = x.toModel.unpack.isNaN := rfl
  rw [same]
  cases held : x.toModel.unpack with
  | notANumber =>
      rw [held] at stands
      cases stands
  | infinity | zero | finite => rfl

theorem le_refl (time : IsTime x) : x ≤ x := by
  obtain ⟨place, stands⟩ := isTime_iff.mp time
  exact (stands.le_iff stands).mpr le_rfl

theorem le_trans (left : IsTime x) (middle : IsTime y) (right : IsTime z) (below : x ≤ y)
    (above : y ≤ z) : x ≤ z := by
  obtain ⟨first, x⟩ := isTime_iff.mp left
  obtain ⟨second, y⟩ := isTime_iff.mp middle
  obtain ⟨third, z⟩ := isTime_iff.mp right
  exact (x.le_iff z).mpr (((x.le_iff y).mp below).trans ((y.le_iff z).mp above))

theorem lt_of_not_le (left : IsTime x) (right : IsTime y) (after : ¬x ≤ y) : y < x := by
  obtain ⟨first, x⟩ := isTime_iff.mp left
  obtain ⟨second, y⟩ := isTime_iff.mp right
  rw [x.le_iff y] at after
  exact (y.lt_iff x).mpr (not_le.mp after)

theorem le_of_lt (left : IsTime x) (right : IsTime y) (before : x < y) : x ≤ y := by
  obtain ⟨first, x⟩ := isTime_iff.mp left
  obtain ⟨second, y⟩ := isTime_iff.mp right
  exact (x.le_iff y).mpr ((x.lt_iff y).mp before).le

theorem le_of_not_lt (left : IsTime x) (right : IsTime y) (after : ¬x < y) : y ≤ x := by
  obtain ⟨first, x⟩ := isTime_iff.mp left
  obtain ⟨second, y⟩ := isTime_iff.mp right
  rw [x.lt_iff y] at after
  exact (y.le_iff x).mpr (not_lt.mp after)

end IsTime

theorem isTime_zero : IsTime 0 := isTime_iff.mpr ⟨_, rfl⟩

theorem isTime_of_pos (positive : x > 0) : IsTime x := by
  rw [IsTime, le_iff_compare, lt_iff_compare.mp positive]
  rfl

theorem isTime_larger (x : Float) : IsTime (larger x 0) := by
  unfold larger
  split
  case isTrue => exact isTime_zero
  case isFalse number =>
    split
    case isTrue => exact isTime_zero
    case isFalse above =>
      have zero : (0 : Float).toModel.unpack = .zero .positive := rfl
      rw [gt_iff_lt, lt_iff_compare, zero] at above
      rcases isNaN_or_below_or_place? x.toModel.unpack .positive with none | below | place
      · exact absurd none number
      · exact absurd below above
      · exact isTime_iff.mpr (Option.isSome_iff_exists.mp place)

theorem larger_of_pos (positive : x > 0) : larger x 0 = x := by
  have time := isTime_of_pos positive
  unfold larger
  rw [time.isNaN_eq_false, if_neg (by simp), if_neg]
  exact fun below => not_ge_of_lt below time

theorem pos_of_larger_pos (positive : larger x 0 > 0) : x > 0 := by
  have zero : ¬(0 : Float) > 0 := by decide
  unfold larger at positive
  split at positive
  · exact absurd positive zero
  · split at positive
    · exact absurd positive zero
    · exact positive

theorem smaller_spec (left : IsTime x) (right : IsTime y) :
    (smaller x y = x ∨ smaller x y = y) ∧ smaller x y ≤ x ∧ smaller x y ≤ y := by
  unfold smaller
  rw [left.isNaN_eq_false, if_neg (by simp)]
  split
  case isTrue before => exact ⟨.inr rfl, right.le_of_lt left before, right.le_refl⟩
  case isFalse after => exact ⟨.inl rfl, left.le_refl, right.le_of_not_lt left after⟩

theorem foldl_smaller_spec {times : List Float} (each : ∀ time ∈ x :: times, IsTime time) :
    times.foldl smaller x ∈ x :: times ∧ ∀ time ∈ x :: times, times.foldl smaller x ≤ time := by
  induction times generalizing x with
  | nil => simpa using (each x List.mem_cons_self).le_refl
  | cons y times induction =>
      have left := each x (by simp)
      have right := each y (by simp)
      obtain ⟨chosen, first, second⟩ := smaller_spec left right
      have time : IsTime (smaller x y) := by
        rcases chosen with same | same <;> rw [same] <;> assumption
      have later : ∀ time ∈ smaller x y :: times, IsTime time := by
        intro other member
        rcases List.mem_cons.mp member with rfl | kept
        · exact time
        · exact each other (by simp [kept])
      obtain ⟨member, least⟩ := induction later
      have earliest := later _ member
      have below := least _ List.mem_cons_self
      rw [List.foldl_cons]
      constructor
      · rcases List.mem_cons.mp member with same | kept
        · rw [same]
          rcases chosen with same | same <;> simp [same]
        · simp [kept]
      · intro other held
        rcases List.mem_cons.mp held with rfl | held
        · exact earliest.le_trans time left below first
        · rcases List.mem_cons.mp held with rfl | held
          · exact earliest.le_trans time right below second
          · exact least other (List.mem_cons_of_mem _ held)

end Order

end SimScript.Scalar
