import BlockRobot.Double.Rounding
import Mathlib.Data.Rat.Floor

/-!
# Whole parts

A finite double stands for a rational number (`Double.value`), a multiple of the smallest
positive one.  In terms of this number the two ways to a whole number are what they are called:
`repetitions` rounds down, not below zero (`repetitions_eq_floor`), and `truncated` rounds
towards zero (`truncated_eq_towardsZero`), both up to the ends of their ranges.

An infinite double stands for an end of the order of the numbers (`Double.extendedValue`), where
there is nothing to round, and the ends of the ranges are what is left
(`repetitions_eq_wholePart`, `truncated_eq_wholePart`).  What is no number counts as zero both
times (`repetitions_of_isNaN`, `truncated_of_isNaN`).
-/

namespace BlockRobot

namespace Double

/-- The number a finite double stands for. -/
def value (d : Double) : ℚ :=
  if d.negative then -(d.units / unitsPerOne) else d.units / unitsPerOne

theorem units_div_nonneg (d : Double) : (0 : ℚ) ≤ d.units / unitsPerOne :=
  div_nonneg (Nat.cast_nonneg _) (Nat.cast_nonneg _)

theorem value_of_negative {d : Double} (hd : d.negative = true) :
    d.value = -(d.units / unitsPerOne) := if_pos hd

theorem value_of_not_negative {d : Double} (hd : d.negative = false) :
    d.value = d.units / unitsPerOne := by
  rw [value, hd]
  rfl

theorem value_zero : zero.value = 0 := by
  rw [value_of_not_negative rfl, units_zero, Nat.cast_zero, zero_div]

theorem floor_units_div (d : Double) :
    ⌊(d.units / unitsPerOne : ℚ)⌋ = (d.units / unitsPerOne : Nat) := by
  rw [Rat.floor_natCast_div_natCast, Int.natCast_div]

/-- The number a double stands for, infinite ones included. -/
def extendedValue (d : Double) : WithBot (WithTop ℚ) :=
  if d.isFinite then ((d.value : WithTop ℚ) : WithBot (WithTop ℚ))
  else if d.negative then ⊥ else ((⊤ : WithTop ℚ) : WithBot (WithTop ℚ))

theorem extendedValue_of_isFinite {d : Double} (hd : d.isFinite = true) :
    d.extendedValue = ((d.value : WithTop ℚ) : WithBot (WithTop ℚ)) := if_pos hd

theorem extendedValue_infinity {d : Double} (hd : d.isFinite = false)
    (hsign : d.negative = false) : d.extendedValue = ((⊤ : WithTop ℚ) : WithBot (WithTop ℚ)) := by
  rw [extendedValue, hd, hsign]
  rfl

theorem extendedValue_negativeInfinity {d : Double} (hd : d.isFinite = false)
    (hsign : d.negative = true) : d.extendedValue = ⊥ := by
  rw [extendedValue, hd, hsign]
  rfl

/-! ## Finite numbers -/

/-- A number without its fraction. -/
def towardsZero (q : ℚ) : ℤ := if q < 0 then ⌈q⌉ else ⌊q⌋

/-- A finite double is not one of the patterns that stand for no number. -/
theorem isNaN_of_isFinite {d : Double} (hd : d.isFinite = true) : d.isNaN = false := by
  have hlt : d.magnitude < infinityMagnitude := of_decide_eq_true hd
  exact decide_eq_false (Nat.not_lt.2 (Nat.le_of_lt hlt))

/-- **Something is repeated as often as the whole part of a number says**, not at all if that
is negative, and at most as often as a count of 64 bits says. -/
theorem repetitions_eq_floor {d : Double} (hd : d.isFinite = true) :
    (d.repetitions : ℤ) = min (max 0 ⌊d.value⌋) largestCount := by
  rw [repetitions, isNaN_of_isFinite hd]
  cases hsign : d.negative with
  | true =>
    have hfloor : ⌊d.value⌋ ≤ 0 := by
      have hvalue : d.value ≤ 0 := value_of_negative hsign ▸ neg_nonpos.2 (units_div_nonneg d)
      exact Int.floor_nonpos hvalue
    rw [Bool.false_or, if_pos rfl, max_eq_left hfloor]
    exact (min_eq_left (Nat.cast_nonneg _)).symm
  | false =>
    have hfloor : ⌊d.value⌋ = (d.units / unitsPerOne : Nat) := by
      rw [value_of_not_negative hsign, floor_units_div]
    rw [Bool.false_or, if_neg Bool.false_ne_true, if_pos hd, hfloor,
      max_eq_right (Nat.cast_nonneg _), Nat.cast_min]

theorem towardsZero_of_negative {d : Double} (hsign : d.negative = true) :
    towardsZero d.value = -(d.units / unitsPerOne : Nat) := by
  have hvalue : d.value = -(d.units / unitsPerOne) := value_of_negative hsign
  have hceil : ⌈d.value⌉ = -(d.units / unitsPerOne : Nat) := by
    rw [hvalue, Int.ceil_neg, floor_units_div]
  rw [towardsZero]
  split
  · exact hceil
  · -- the negative zero, of which both whole parts are the same
    rename_i hnot
    have hzero : d.value = 0 := by
      have hnonneg := units_div_nonneg d
      linarith
    rw [← hceil, hzero, Int.floor_zero, Int.ceil_zero]

theorem towardsZero_of_not_negative {d : Double} (hsign : d.negative = false) :
    towardsZero d.value = (d.units / unitsPerOne : Nat) := by
  have hvalue : d.value = d.units / unitsPerOne := value_of_not_negative hsign
  have hnot : ¬d.value < 0 := not_lt.2 (hvalue ▸ units_div_nonneg d)
  rw [towardsZero, if_neg hnot, hvalue, floor_units_div]

/-- **A number loses its fraction**, and is brought into the range of integers of 32 bits. -/
theorem truncated_eq_towardsZero {d : Double} (hd : d.isFinite = true) :
    d.truncated = max leastInteger (min largestInteger (towardsZero d.value)) := by
  have hleast : leastInteger ≤ 0 := by decide
  have hlargest : 0 ≤ largestInteger := by decide
  have hnonneg : (0 : ℤ) ≤ (d.units / unitsPerOne : Nat) := Nat.cast_nonneg _
  rw [truncated, isNaN_of_isFinite hd, if_neg Bool.false_ne_true, if_pos hd]
  cases hsign : d.negative with
  | true =>
    have hle : -((d.units / unitsPerOne : Nat) : ℤ) ≤ largestInteger :=
      (neg_nonpos.2 hnonneg).trans hlargest
    rw [if_pos rfl, towardsZero_of_negative hsign, min_eq_right hle]
  | false =>
    have hle : leastInteger ≤ min largestInteger (d.units / unitsPerOne : Nat) :=
      hleast.trans (le_min hlargest hnonneg)
    rw [if_neg Bool.false_ne_true, towardsZero_of_not_negative hsign, max_eq_right hle]

/-! ## All numbers -/

/-- What is no number is not repeated. -/
theorem repetitions_of_isNaN {d : Double} (hd : d.isNaN = true) : d.repetitions = 0 := by
  rw [repetitions, hd, Bool.true_or, if_pos rfl]

/-- What is no number counts as zero. -/
theorem truncated_of_isNaN {d : Double} (hd : d.isNaN = true) : d.truncated = 0 := by
  rw [truncated, if_pos hd]

/-- Whole parts of numbers, infinite ones staying as they are. -/
def wholePart (part : ℚ → ℤ) (x : WithBot (WithTop ℚ)) : WithBot (WithTop ℤ) :=
  x.map (WithTop.map part)

/-- **Repetitions of all numbers**: the whole part, infinite ones included, brought into the range
of counts of 64 bits. -/
theorem repetitions_eq_wholePart {d : Double} (hd : d.isNaN = false) :
    (((d.repetitions : ℤ) : WithTop ℤ) : WithBot (WithTop ℤ)) =
      min (max 0 (wholePart Int.floor d.extendedValue)) ((largestCount : ℤ) : WithTop ℤ) := by
  cases hfinite : d.isFinite with
  | true =>
    rw [repetitions_eq_floor hfinite, extendedValue_of_isFinite hfinite]
    rfl
  | false =>
    rw [repetitions, hd, hfinite]
    cases hsign : d.negative with
    | true =>
      rw [extendedValue_negativeInfinity hfinite hsign]
      rfl
    | false =>
      rw [extendedValue_infinity hfinite hsign]
      rfl

/-- **All numbers lose their fraction**, infinite ones included, and are brought into the range of
integers of 32 bits. -/
theorem truncated_eq_wholePart {d : Double} (hd : d.isNaN = false) :
    ((d.truncated : WithTop ℤ) : WithBot (WithTop ℤ)) =
      max ((leastInteger : WithTop ℤ) : WithBot (WithTop ℤ))
        (min ((largestInteger : WithTop ℤ) : WithBot (WithTop ℤ))
          (wholePart towardsZero d.extendedValue)) := by
  cases hfinite : d.isFinite with
  | true =>
    rw [truncated_eq_towardsZero hfinite, extendedValue_of_isFinite hfinite]
    rfl
  | false =>
    rw [truncated, hd, hfinite]
    cases hsign : d.negative with
    | true =>
      rw [extendedValue_negativeInfinity hfinite hsign]
      rfl
    | false =>
      rw [extendedValue_infinity hfinite hsign]
      rfl

end Double

end BlockRobot
