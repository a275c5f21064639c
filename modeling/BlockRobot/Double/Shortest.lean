import BlockRobot.Double.Numeral

/-!
# The shortest decimal text of a double

A finite double is written with the fewest digits that read back as the same
double; of two such texts of one length the closer is written, and of two equally
close ones that with the even last digit.

Since a double is `units / 2 ^ 1074`, multiplying by `5 ^ 1074` gives its exact
decimal expansion with 1074 places, as one natural number `expansion`.  Cutting
that number after `n` digits gives the neighbour below on the grid of `n`-digit
decimals, and adding one the neighbour above; if any point of that grid reads
back, one of those two does.  Reading back is tried with `Numeral.toDouble`
itself, so what is written and what is read cannot disagree.

The digits are laid out plainly while the power of ten of the first digit lies
between `-5` and `15`, always with a point; beyond, with one digit before the
point and an explicit power.
-/

namespace BlockRobot

namespace Double

/-- The decimal expansion of a finite magnitude, as a multiple of `10 ^ (-1074)`. -/
def expansion (d : Double) : Nat := d.units * 5 ^ 1074

/-- The number of decimal digits of a natural number. -/
def decimalLength (n : Nat) : Nat := (Nat.toDigits 10 n).length

/-- Whether the decimal `digits * 10 ^ exponent` reads as `d`. -/
def readsBack (d : Double) (digits : Nat) (exponent : Int) : Bool :=
  decide ((Numeral.mk d.negative digits exponent).toDouble = d)

/-- The digits to write if `cut` last digits are dropped from the expansion: the
closer of the two neighbours on that grid that read back. -/
def digitsAfterCut? (d : Double) (cut : Nat) : Option Nat :=
  let grid := 10 ^ cut
  let below := d.expansion / grid
  let exponent := (cut : Int) - 1074
  if d.readsBack below exponent then
    if d.readsBack (below + 1) exponent then some (roundHalfEven d.expansion grid)
    else some below
  else if d.readsBack (below + 1) exponent then some (below + 1)
  else none

/-- The digits and the power of ten of the shortest decimal that reads back.  At
most seventeen digits are needed; the whole expansion stands in should none do. -/
def shortest (d : Double) : Nat × Int :=
  let length := decimalLength d.expansion
  let found := (List.range 17).findSome? fun i =>
    let cut := length - (i + 1)
    (d.digitsAfterCut? cut).map fun digits => (digits, (cut : Int) - 1074)
  found.getD (d.expansion, -1074)

/-! ## Laying out digits -/

/-- `n` zeros. -/
def zeros (n : Nat) : List Char := List.replicate n '0'

/-- A digit string without the zeros at its end. -/
def dropTrailingZeros (ds : List Char) : List Char :=
  (ds.reverse.dropWhile (· = '0')).reverse

/-- An integer as digits with a sign, also if it is positive. -/
def signedDigits (e : Int) : List Char :=
  (if e < 0 then '-' else '+') :: Nat.toDigits 10 e.natAbs

/-- The text of `d.ddd * 10 ^ e` for the digit string `ds`. -/
def layout (ds : List Char) (e : Int) : List Char :=
  if e < -5 ∨ 16 ≤ e then
    let fraction := ds.drop 1
    let point := if fraction.isEmpty then [] else '.' :: fraction
    ds.take 1 ++ point ++ 'e' :: (if e < 0 then '-' :: Nat.toDigits 10 e.natAbs else signedDigits e)
  else if e < 0 then
    '0' :: '.' :: zeros (e.natAbs - 1) ++ ds
  else
    let whole := e.toNat + 1
    if ds.length ≤ whole then ds ++ zeros (whole - ds.length) ++ ['.', '0']
    else ds.take whole ++ '.' :: ds.drop whole

/-- The text of the decimal with these digits and this power of ten. -/
def decimalText (decimal : Nat × Int) : List Char :=
  let ds := Nat.toDigits 10 decimal.1
  layout (dropTrailingZeros ds) (decimal.2 + (ds.length - 1))

/-- The text of a finite double. -/
def text (d : Double) : List Char :=
  (if d.negative then ['-'] else []) ++
    if d.units = 0 then ['0', '.', '0'] else decimalText d.shortest

example : String.ofList (ofBits 0x3FB999999999999A).text = "0.1" := by decide +kernel

example : String.ofList (ofBits 0x8000000000000000).text = "-0.0" := by decide +kernel

example : String.ofList (ofBits 1).text = "5e-324" := by decide +kernel

/-! The plain layout ends above `10 ^ 15` and below `10 ^ (-5)`. -/

example : String.ofList (ofBits 0x430C6BF526340000).text = "1000000000000000.0" := by
  decide +kernel

example : String.ofList (ofBits 0x4341C37937E08000).text = "1e+16" := by decide +kernel

example : String.ofList (ofBits 0x3EE4F8B588E368F1).text = "0.00001" := by decide +kernel

example : String.ofList (ofBits 0x3EB0C6F7A0B5ED8D).text = "1e-6" := by decide +kernel

end Double

end BlockRobot
