import BlockRobot.Json
import BlockRobot.Text.Shown

/-!
# Why a text is refused

A text is refused for the first of two sorts of reasons that is met: it is no JSON
(a `Fault`), or it is JSON of the wrong sort.  `ReadError.message` is the wording of
the second sort.  For the first it is only a mark that tells a text that is cut from
one that is broken: how faults are worded is outside the model, and so are the line
and the column at which a reason is met.
-/

namespace BlockRobot

/-- What stands where something else was expected. -/
inductive Found where
  | integer (i : Int)
  | double (d : Double)
  | text (s : String)
  | bool (b : Bool)
  | null
  | sequence
  | map
deriving DecidableEq

/-- Why a text is refused. -/
inductive ReadError where
  /-- The text is no JSON. -/
  | fault (f : Fault)
  | missingField (name : String)
  | duplicateField (name : String)
  /-- A value of another sort stands there. -/
  | invalidType (found : Found) (expected : String)
  /-- A value of the right sort stands there, but not one that is allowed. -/
  | invalidValue (found : Found) (expected : String)
  | invalidLength (length : Nat) (expected : String)
  | unknownVariant (name : String) (known : List String)
  /-- The value has none of the forms of an untagged choice. -/
  | noForm (choice : String)
deriving DecidableEq

/-- A name between grave accents. -/
def marked (s : String) : String := "`" ++ s ++ "`"

/-- The number of parts of a record or list, in words. -/
def elementCount (n : Nat) : String :=
  toString n ++ (if n = 1 then " element" else " elements")

namespace Found

/-- What was found, in words. -/
def describe : Found → String
  | integer i => "integer " ++ marked (.ofList (Number.integer i).render)
  | double d => "floating point " ++ marked (.ofList d.text)
  | text s => "string " ++ shown s
  | bool true => "boolean " ++ marked "true"
  | bool false => "boolean " ++ marked "false"
  | null => "null"
  | sequence => "sequence"
  | map => "map"

end Found

/-- The names among which one was expected. -/
def expectedNames : List String → String
  | [a, b] => marked a ++ " or " ++ marked b
  | names => "one of " ++ ", ".intercalate (names.map marked)

/-- The wording of a refusal. -/
def ReadError.message : ReadError → String
  | fault .cut => "<eof>"
  | fault .broken => "<syntax>"
  | missingField name => "missing field " ++ marked name
  | duplicateField name => "duplicate field " ++ marked name
  | invalidType found expected => "invalid type: " ++ found.describe ++ ", expected " ++ expected
  | invalidValue found expected => "invalid value: " ++ found.describe ++ ", expected " ++ expected
  | invalidLength length expected =>
    "invalid length " ++ toString length ++ ", expected " ++ expected
  | unknownVariant name known =>
    "unknown variant " ++ marked name ++ ", expected " ++ expectedNames known
  | noForm choice => "data did not match any variant of untagged enum " ++ choice

end BlockRobot
