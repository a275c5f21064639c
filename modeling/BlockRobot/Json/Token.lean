import BlockRobot.Json

/-!
# The tokens of a JSON text

A text is first cut into tokens: brackets, commas, colons, and *scalars*, that is
the values without parts.  No token depends on where it stands, so this needs no
memory of what came before.

## Spoiled scalars

A scalar can be spoiled: begun, but not ended as it must be, or naming something
that does not exist.  What a reader reports of it depends on what the reader wants,
so a spoiled scalar carries a `Flaw` with both answers.

* A reader that wants to know the value meets `whenRead`.
* A reader that skips the value meets `whenSkipped`, if anything.  A number too
  large for a double, and a text with half a surrogate pair, are no obstacle then;
  a number that ends with the text is *broken* to it, although it is *cut* to a
  reader that wants it.

Nothing can be read after a flaw that stops the skipping reader too, so the tokens
end there.
-/

namespace BlockRobot

/-- What is wrong with a scalar, for the two kinds of readers. -/
structure Flaw where
  whenRead : Fault
  whenSkipped : Option Fault
deriving DecidableEq

/-- The same fault for both kinds of readers. -/
def Flaw.always (f : Fault) : Flaw := ⟨f, some f⟩

/-- What a spoiled scalar was begun as. -/
inductive ScalarKind where
  | text
  | number
  | word
deriving DecidableEq

/-- A value without parts, as it stands in a text. -/
inductive Scalar where
  | null
  | bool (b : Bool)
  | number (n : Number)
  | text (s : String)
  | spoiled (kind : ScalarKind) (flaw : Flaw)
deriving DecidableEq

/-- A token of a JSON text. -/
inductive Token where
  | openArray
  | closeArray
  | openObject
  | closeObject
  | comma
  | colon
  | scalar (s : Scalar)
  /-- A character with which no token begins. -/
  | stray
deriving DecidableEq

namespace Token

/-- The blanks of JSON. -/
def isSpace (c : Char) : Bool := c = ' ' || c = '\n' || c = '\t' || c = '\r'

/-! ## Words -/

/-- A word that must go on with the characters `due`; it stands for `value`. -/
def word (value : Scalar) : (due : List Char) → List Char → Scalar × List Char
  | [], cs => (value, cs)
  | _ :: _, [] => (.spoiled .word (.always .cut), [])
  | d :: due, c :: cs =>
    if c = d then word value due cs else (.spoiled .word (.always .broken), [])

/-! ## Numbers -/

/-- A number where a digit is due: at the end of the text a reader finds it cut and
a skipping reader broken, before any other character it is broken to both. -/
def digitDue : List Char → Scalar × List Char
  | [] => (.spoiled .number ⟨.cut, some .broken⟩, [])
  | _ :: _ => (.spoiled .number (.always .broken), [])

/-- The value of a number with a point or a power of ten, which must not be too
large for a double. -/
def doubleScalar (n : Numeral) : Scalar :=
  if n.toDouble.isFinite then .number (.double n.toDouble)
  else .spoiled .number ⟨.broken, none⟩

/-- The value of a number of digits only: an integer if 64 bits hold it, otherwise
a double.  A negative zero is a double, since integers have none. -/
def wholeScalar (negative : Bool) (whole : List Char) : Scalar :=
  let n := digitsValue whole
  if negative then
    if n ≠ 0 ∧ n ≤ 2 ^ 63 then .number (.integer (-(n : Int)))
    else doubleScalar (.ofParts true whole [] 0)
  else if n < 2 ^ 64 then .number (.integer n)
  else doubleScalar (.ofParts false whole [] 0)

/-- The rest of a number after the letter of its power of ten. -/
def exponentPart (negative : Bool) (whole fraction : List Char) (cs : List Char) :
    Scalar × List Char :=
  let (down, cs) := spanSign cs
  match spanDigits cs with
  | ([], cs) => digitDue cs
  | (ds, cs) =>
    let e : Int := if down then -(digitsValue ds : Int) else digitsValue ds
    (doubleScalar (.ofParts negative whole fraction e), cs)

/-- Whether a character opens the power of ten. -/
def isExponentMark (c : Char) : Bool := c = 'e' || c = 'E'

/-- The rest of a number after the digits before the point. -/
def afterWhole (negative : Bool) (whole : List Char) : List Char → Scalar × List Char
  | [] => (wholeScalar negative whole, [])
  | c :: cs =>
    if c = '.' then
      match spanDigits cs with
      | ([], cs) => digitDue cs
      | (fraction, []) => (doubleScalar (.ofParts negative whole fraction 0), [])
      | (fraction, c :: cs) =>
        if isExponentMark c then exponentPart negative whole fraction cs
        else (doubleScalar (.ofParts negative whole fraction 0), c :: cs)
    else if isExponentMark c then exponentPart negative whole [] cs
    else (wholeScalar negative whole, c :: cs)

/-- A number after its sign.  A zero ends the digits before the point. -/
def number (negative : Bool) (cs : List Char) : Scalar × List Char :=
  match spanDigits cs with
  | ([], cs) => digitDue cs
  | (['0'], cs) => afterWhole negative ['0'] cs
  | ('0' :: _, _) => (.spoiled .number (.always .broken), [])
  | (whole, cs) => afterWhole negative whole cs

/-! ## Texts -/

/-- A quoted text after its opening quote. -/
def quoted (cs : List Char) : Scalar × List Char :=
  let (ps, ending) := Quoted.pieces cs
  let rest := match ending with
    | .closed rest => rest
    | .fault _ => []
  match Quoted.join ending ps with
  | .ok characters => (.text (.ofList characters), rest)
  | .error f => (.spoiled .text ⟨f, ending.fault?⟩, rest)

/-- A text that was written is read as it was. -/
theorem quoted_flatMap_escape (cs rest : List Char) :
    quoted (cs.flatMap Quoted.escape ++ '"' :: rest) = (.text (.ofList cs), rest) := by
  simp only [quoted, Quoted.pieces_flatMap_escape, Quoted.join_map_pieceOf]

/-! ## Tokens -/

/-- The token that begins with the character `c`, and what follows it. -/
def startingWith (c : Char) (cs : List Char) : Token × List Char :=
  let scalar (r : Scalar × List Char) : Token × List Char := (.scalar r.1, r.2)
  if c = '[' then (.openArray, cs)
  else if c = ']' then (.closeArray, cs)
  else if c = '\x7b' then (.openObject, cs)
  else if c = '\x7d' then (.closeObject, cs)
  else if c = ',' then (.comma, cs)
  else if c = ':' then (.colon, cs)
  else if c = '"' then scalar (quoted cs)
  else if c = '-' then scalar (number true cs)
  else if isDigit c then scalar (number false (c :: cs))
  else if c = 'n' then scalar (word .null ['u', 'l', 'l'] cs)
  else if c = 't' then scalar (word (.bool true) ['r', 'u', 'e'] cs)
  else if c = 'f' then scalar (word (.bool false) ['a', 'l', 's', 'e'] cs)
  else (.stray, [])

/-- The tokens of a text.  Each takes at least one character, so the length of the
text bounds how many there are. -/
def listWithin : (bound : Nat) → List Char → List Token
  | 0, _ => []
  | _ + 1, [] => []
  | bound + 1, c :: cs =>
    if isSpace c then listWithin bound cs
    else
      let (token, rest) := startingWith c cs
      token :: listWithin bound rest

/-- The tokens of a text. -/
def ofText (cs : List Char) : List Token := listWithin cs.length cs

end Token

end BlockRobot
