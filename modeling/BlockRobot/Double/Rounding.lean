import BlockRobot.Double

/-!
# Rounding to a double, and from a double to whole numbers

`nearest` rounds a quotient of natural numbers to the closest double, a tie going
to the even neighbour, and everything beyond the largest finite double to
infinity.  Scaled by `2 ^ 1074` the quotient counts smallest positive doubles;
its *band* is how far those `units` must be shifted to leave 53 binary digits.
The magnitude is then `2 ^ 52` for every band passed plus the rounded significand,
in the first band too, where the significand may be shorter: this is the point of
keeping exponent and fraction in one number.

Back to whole numbers there are two rules: `repetitions` rounds down and stops at
the largest 64-bit count, `truncated` drops the fraction and stops at the ends of
the 32-bit integers.
-/

namespace BlockRobot

/-- The whole number closest to `n / d`, a half going to the even neighbour. -/
def roundHalfEven (n d : Nat) : Nat :=
  let q := n / d
  let r := n % d
  if 2 * r < d then q else if d < 2 * r then q + 1 else q + q % 2

theorem roundHalfEven_of_dvd {n d : Nat} (hd : 0 < d) (h : n % d = 0) :
    roundHalfEven n d = n / d := by
  simp [roundHalfEven, h, hd]

namespace Double

/-- How many places the units of `scaled / den` lie above 53 binary digits. -/
def band (scaled den : Nat) : Nat := (scaled / den).log2 - 52

/-- The magnitude closest to `num / den`. -/
def nearestMagnitude (num den : Nat) : Nat :=
  let scaled := num * 2 ^ 1074
  let b := band scaled den
  min infinityMagnitude (b * 2 ^ 52 + roundHalfEven scaled (den * 2 ^ b))

theorem nearestMagnitude_lt (num den : Nat) : nearestMagnitude num den < 2 ^ 63 :=
  Nat.lt_of_le_of_lt (Nat.min_le_left _ _) (by decide)

/-- The double closest to `num / den`, with the given sign. -/
def nearest (negative : Bool) (num den : Nat) : Double :=
  ⟨negative, nearestMagnitude num den, nearestMagnitude_lt num den⟩

/-- The double closest to an integer. -/
def ofInt (i : Int) : Double := nearest (i < 0) i.natAbs 1

/-- One smallest positive double is `1 / unitsPerOne`. -/
def unitsPerOne : Nat := 2 ^ 1074

/-! ## Whole numbers -/

/-- The largest count of 64 bits. -/
def largestCount : Nat := 2 ^ 64 - 1

/-- How often something is repeated that is to be repeated `d` times: the whole
part, never less than zero and at most `largestCount`; no number, no repetition. -/
def repetitions (d : Double) : Nat :=
  if d.isNaN || d.negative then 0
  else if d.isFinite then min (d.units / unitsPerOne) largestCount
  else largestCount

/-- The least integer of 32 bits. -/
def leastInteger : Int := -2 ^ 31

/-- The largest integer of 32 bits. -/
def largestInteger : Int := 2 ^ 31 - 1

/-- The number without its fraction, brought into the range of 32-bit integers;
not-a-number counts as zero. -/
def truncated (d : Double) : Int :=
  if d.isNaN then 0
  else if d.isFinite then
    if d.negative then max leastInteger (-(d.units / unitsPerOne : Nat) : Int)
    else min largestInteger (d.units / unitsPerOne : Nat)
  else if d.negative then leastInteger else largestInteger

end Double

end BlockRobot
