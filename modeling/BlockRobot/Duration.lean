import BlockRobot.Double.Rounding

/-!
# Durations

A wait is written as a number of milliseconds, possibly fractional, negative,
infinite or not a number.  It lasts a whole number of nanoseconds: the
milliseconds are divided by a thousand *as doubles* and the seconds so obtained
are rounded to the nearest nanosecond, a half going to the even one.  Both
roundings show in the result, so both are kept.

A duration has 64 bits of seconds; whatever lasts longer is the longest duration.
-/

namespace BlockRobot

/-- A span of time, in nanoseconds. -/
structure Duration where
  nanoseconds : Nat
deriving DecidableEq

namespace Duration

/-- Nanoseconds in a second. -/
def perSecond : Nat := 1000000000

/-- Nanoseconds in a millisecond. -/
def perMillisecond : Nat := 1000000

/-- The longest duration: all 64-bit seconds and all of the last second. -/
def longest : Duration := ⟨(2 ^ 64 - 1) * perSecond + (perSecond - 1)⟩

/-- Whole seconds. -/
def seconds (d : Duration) : Nat := d.nanoseconds / perSecond

/-- The nanoseconds beyond the whole seconds. -/
def subsecond (d : Duration) : Nat := d.nanoseconds % perSecond

/-- The number of seconds that many milliseconds make, as a double. -/
def secondsOf (ms : Double) : Double :=
  Double.nearest ms.negative ms.units (1000 * Double.unitsPerOne)

/-- The duration of a wait of `ms` milliseconds.  Negative waits and those that
are no number take no time. -/
def ofMilliseconds (ms : Double) : Duration :=
  if ms.isNaN || ms.negative then ⟨0⟩
  else if ms.isFinite then
    let ns := roundHalfEven ((secondsOf ms).units * perSecond) Double.unitsPerOne
    if ns < 2 ^ 64 * perSecond then ⟨ns⟩ else longest
  else longest

example : ofMilliseconds (.ofInt 250) = ⟨250000000⟩ := by decide +kernel

/-! The least negative wait takes no time, and neither does the least positive one. -/

example : ofMilliseconds ⟨true, 1, by decide⟩ = ⟨0⟩ := by decide +kernel

example : ofMilliseconds ⟨false, 1, by decide⟩ = ⟨0⟩ := by decide +kernel

/-- The milliseconds a sleep of this length takes on a clock that ticks in
milliseconds: a begun tick is slept to its end. -/
def ticks (d : Duration) : Nat := (d.nanoseconds + (perMillisecond - 1)) / perMillisecond

/-- A duration of whole milliseconds. -/
def milliseconds (n : Nat) : Duration := ⟨n * perMillisecond⟩

end Duration

end BlockRobot
