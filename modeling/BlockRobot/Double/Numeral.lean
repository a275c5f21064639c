import BlockRobot.Double.Rounding

/-!
# Decimal numerals

A numeral in a text is a sign, a run of digits and a power of ten.  What it
stands for is rounded once, at the end, by `Numeral.toDouble`; the powers are
bounded first, since a text of a few characters can name a number of a billion
digits.  The bounds decide nothing that rounding would not: at `2 ^ 1024` and
beyond every double is infinite, and below `2 ^ (-1076)` every one is zero.

`scan` takes the parts of a numeral from the front of a text.  Two grammars are
built on it: numbers of a JSON text (in `Json.Token`), which say exactly where a
digit must stand, and `Double.ofText?`, the freer form in which a learner may type
a number into a text field.
-/

namespace BlockRobot

/-- Whether a character is one of the ten decimal digits. -/
def isDigit (c : Char) : Bool := '0' ≤ c && c ≤ '9'

/-- The digits at the front of a text, and what follows them. -/
def spanDigits (cs : List Char) : List Char × List Char := cs.span isDigit

/-- A run of digits as a natural number. -/
def digitsValue (cs : List Char) : Nat := cs.foldl (fun n c => 10 * n + (c.toNat - 48)) 0

/-- A decimal numeral: `digits * 10 ^ exponent`, negated if so marked. -/
structure Numeral where
  negative : Bool
  digits : Nat
  exponent : Int
deriving DecidableEq

namespace Numeral

/-- The double closest to a numeral, possibly infinite. -/
def toDouble (n : Numeral) : Double :=
  if n.digits = 0 then Double.nearest n.negative 0 1
  else if 0 ≤ n.exponent then
    let e := n.exponent.toNat
    if 1024 ≤ n.digits.log2 + 3 * e then ⟨n.negative, Double.infinityMagnitude, by decide⟩
    else Double.nearest n.negative (n.digits * 10 ^ e) 1
  else
    let e := n.exponent.natAbs
    if n.digits.log2 + 1077 ≤ 3 * e then Double.nearest n.negative 0 1
    else Double.nearest n.negative n.digits (10 ^ e)

/-- The numeral of the digits before and after the point and a power of ten. -/
def ofParts (negative : Bool) (whole fraction : List Char) (exponent : Int) : Numeral :=
  ⟨negative, digitsValue (whole ++ fraction), exponent - fraction.length⟩

end Numeral

/-! ## Numbers typed into a text field -/

/-- An optional sign at the front of a text: whether it is a minus, and the rest. -/
def spanSign : List Char → Bool × List Char
  | '-' :: cs => (true, cs)
  | '+' :: cs => (false, cs)
  | cs => (false, cs)

/-- The power of ten at the end of a numeral: nothing, or a letter `e`, an
optional sign and at least one digit, and then nothing more. -/
def exponentOfText? : List Char → Option Int
  | [] => some 0
  | c :: cs =>
    if c = 'e' ∨ c = 'E' then
      let (negative, cs) := spanSign cs
      let (ds, rest) := spanDigits cs
      if ds.isEmpty || !rest.isEmpty then none
      else some (if negative then -(digitsValue ds : Int) else digitsValue ds)
    else none

/-- The numeral a text spells: an optional sign, digits with at most one point
among or around them, at least one digit, and an optional power of ten. -/
def Numeral.ofText? (cs : List Char) : Option Numeral :=
  let (negative, cs) := spanSign cs
  let (whole, cs) := spanDigits cs
  let (fraction, cs) := match cs with
    | '.' :: cs => spanDigits cs
    | cs => ([], cs)
  if whole.isEmpty && fraction.isEmpty then none
  else (exponentOfText? cs).map fun e => Numeral.ofParts negative whole fraction e

/-- The finite double a text spells, if it spells one. -/
def Double.ofText? (cs : List Char) : Option Double :=
  match Numeral.ofText? cs with
  | none => none
  | some n => if n.toDouble.isFinite then some n.toDouble else none

end BlockRobot
