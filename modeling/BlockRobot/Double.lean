/-!
# Binary numbers of 64 bits

Repeat counts, waiting times and canvas positions are floating-point numbers of
64 bits.  They are held here in the logic and not as machine numbers: a `Double`
is a sign and a *magnitude*, the lower 63 bits read as one natural number.

## Why the magnitude is one number

Exponent and fraction stand side by side in those 63 bits, exponent first, so
the next magnitude is the next larger double, across every change of exponent.
Three things follow and are what the rest of the library uses.

* The order that puts `-0` before `0`, negative infinity first and not-a-number
  last is the order of the integers `Double.rank`.
* A magnitude below `infinityMagnitude` stands for `units` multiples of the
  smallest positive double `2 ^ (-1074)`, so every finite double is an integer
  over one common denominator and no rational arithmetic is needed.
* Rounding (in `Double.Rounding`) computes a magnitude directly: a carry out of
  the fraction steps into the next exponent by itself.
-/

namespace BlockRobot

-- so that a power is read in one way only, however much algebra is imported
attribute [default_instance 20000,
instance 20000] instPowNat

/-- A floating-point number of 64 bits: its sign and its lower 63 bits. -/
structure Double where
  /-- Whether the sign bit is set. -/
  negative : Bool
  /-- Exponent and fraction, read as one natural number. -/
  magnitude : Nat
  magnitude_lt : magnitude < 2 ^ 63
deriving DecidableEq

namespace Double

/-- The magnitude of the infinities; every larger one is not a number. -/
def infinityMagnitude : Nat := 2047 * 2 ^ 52

/-- Neither infinite nor not-a-number. -/
def isFinite (d : Double) : Bool := d.magnitude < infinityMagnitude

/-- One of the patterns that stand for no number. -/
def isNaN (d : Double) : Bool := infinityMagnitude < d.magnitude

/-- The number whose 64 bits are those of `b`, higher bits ignored. -/
def ofBits (b : Nat) : Double where
  negative := b / 2 ^ 63 % 2 = 1
  magnitude := b % 2 ^ 63
  magnitude_lt := Nat.mod_lt _ (by decide)

/-- The 64 bits as a natural number. -/
def bits (d : Double) : Nat := (if d.negative then 2 ^ 63 else 0) + d.magnitude

/-- The positive zero. -/
def zero : Double := ⟨false, 0, by decide⟩

instance : Inhabited Double := ⟨zero⟩

@[simp] theorem isFinite_zero : zero.isFinite = true := rfl

/-! ## The value of a finite number -/

/-- A finite magnitude as a multiple of `2 ^ (-1074)`.  Below `2 ^ 52` the
number is its own multiple; above, the fraction gets its leading one and is
shifted by one place less than the exponent says. -/
def units (d : Double) : Nat :=
  if d.magnitude < 2 ^ 52 then d.magnitude
  else (2 ^ 52 + d.magnitude % 2 ^ 52) * 2 ^ (d.magnitude / 2 ^ 52 - 1)

@[simp] theorem units_zero : zero.units = 0 := rfl

/-! ## The total order -/

/-- The place of a number in the total order of all 64-bit patterns: negative
numbers count down from `-1`, the others up from `0`. -/
def rank (d : Double) : Int :=
  if d.negative then -1 - (d.magnitude : Int) else d.magnitude

theorem rank_inj {a b : Double} (h : a.rank = b.rank) : a = b := by
  obtain ⟨s, m, hm⟩ := a
  obtain ⟨t, n, hn⟩ := b
  cases s <;> cases t <;> simp only [rank, if_true, if_false, Bool.false_eq_true] at h
  · obtain rfl : m = n := by omega
    rfl
  · omega
  · omega
  · obtain rfl : m = n := by omega
    rfl

end Double

end BlockRobot
