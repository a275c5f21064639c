import BlockRobot.Json.Draft
import BlockRobot.Json.ReadError

/-!
# Readers

A `Reader α` takes a draft and gives a value of type `α` or says why not.  Its first
argument is the *room* left: how many more brackets may be opened inside those
already open.  A text gets `Reader.depth`, and opening one bracket more is a fault
of the text, wherever the reader wants to look inside.  What a reader skips may be
nested as deep as it likes.

Readers keep to the order of the text: whatever stands further left is judged
first, and a closing bracket is judged where it stands, after the parts.
-/

namespace BlockRobot

/-- A way to read a value from a draft, given how many brackets may still be opened. -/
abbrev Reader (α : Type) := (room : Nat) → Draft → Except ReadError α

/-- How deep a text may be nested. -/
def Reader.depth : Nat := 127

/-- Judges the close of an array or object of which all parts are read. -/
def closing {α : Type} (close : Option Fault) (a : α) : Except ReadError α :=
  match close with
  | none => .ok a
  | some f => .error (.fault f)

namespace Scalar

/-- The value of a scalar. -/
def value : Scalar → Except ReadError Json
  | null => .ok .null
  | bool b => .ok (.bool b)
  | number n => .ok (.number n)
  | text s => .ok (.text s)
  | spoiled _ flaw => .error (.fault flaw.whenRead)

end Scalar

/-- What a number is called where it is not expected. -/
def Number.found : Number → Found
  | integer i => .integer i
  | double d => .double d

namespace Draft

/-- The refusal of a draft where `expected` should stand. -/
def mismatch (expected : String) : Draft → ReadError
  | missing f => .fault f
  | scalar .null => .invalidType .null expected
  | scalar (.bool b) => .invalidType (.bool b) expected
  | scalar (.number n) => .invalidType n.found expected
  | scalar (.text s) => .invalidType (.text s) expected
  | scalar (.spoiled _ flaw) => .fault flaw.whenRead
  | array _ _ => .invalidType .sequence expected
  | object _ _ => .invalidType .map expected

/-- The name a member is written under. -/
def name : Draft → Except ReadError String
  | missing f => .error (.fault f)
  | scalar (.text s) => .ok s
  | scalar (.spoiled .text flaw) => .error (.fault flaw.whenRead)
  | _ => .error (.fault .broken)

/-! ## Reading everything -/

mutual

/-- Reads a value as it is, all of it. -/
def value (room : Nat) : Draft → Except ReadError Json
  | missing f => .error (.fault f)
  | scalar s => s.value
  | array items close =>
    match room with
    | 0 => .error (.fault .broken)
    | room + 1 => do
      let items ← valueItems room items
      closing close (.array items)
  | object members close =>
    match room with
    | 0 => .error (.fault .broken)
    | room + 1 => do
      let members ← valueMembers room members
      closing close (.object members)

/-- Reads all items as they are. -/
def valueItems (room : Nat) : List Draft → Except ReadError (List Json)
  | [] => .ok []
  | item :: items => do
    let item ← value room item
    let items ← valueItems room items
    return item :: items

/-- Reads all members as they are. -/
def valueMembers (room : Nat) : List (Draft × Draft) → Except ReadError (List (String × Json))
  | [] => .ok []
  | (key, v) :: members => do
    let key ← key.name
    let v ← value room v
    let members ← valueMembers room members
    return (key, v) :: members

end

end Draft

namespace Reader

variable {α : Type}

/-- Reads any value, in normal form. -/
def json : Reader Json := fun room d => (d.value room).map Json.normal

/-- Reads a text. -/
def text : Reader String
  | _, .scalar (.text s) => .ok s
  | _, d => .error (d.mismatch "a string")

/-- Reads an integer between two bounds; `expected` names the range. -/
def integer (least largest : Int) (expected : String) : Reader Int
  | _, .scalar (.number (.integer i)) =>
    if least ≤ i ∧ i ≤ largest then .ok i else .error (.invalidValue (.integer i) expected)
  | _, d => .error (d.mismatch expected)

/-- Reads an integer of 32 bits. -/
def integer32 : Reader Int := integer Double.leastInteger Double.largestInteger "i32"

/-- Reads a natural number below `2 ^ bits`. -/
def natural (bits : Nat) (expected : String) : Reader Nat := fun room d =>
  (integer 0 (2 ^ bits - 1) expected room d).map Int.toNat

/-- Reads a natural number of 32 bits. -/
def natural32 : Reader Nat := natural 32 "u32"

/-- Reads a natural number of 16 bits. -/
def natural16 : Reader Nat := natural 16 "u16"

/-- Reads a double; an integer is rounded to one. -/
def double : Reader Double
  | _, .scalar (.number n) => .ok n.toDouble
  | _, d => .error (d.mismatch "f64")

/-- Reads a truth value. -/
def bool : Reader Bool
  | _, .scalar (.bool b) => .ok b
  | _, d => .error (d.mismatch "a boolean")

/-- Reads a value or `null`. -/
def option (r : Reader α) : Reader (Option α)
  | _, .scalar .null => .ok none
  | room, d => (r room d).map some

/-- Reads each of some items. -/
def items (r : Reader α) (room : Nat) : List Draft → Except ReadError (List α)
  | [] => .ok []
  | d :: ds => do
    let a ← r room d
    let as ← items r room ds
    return a :: as

/-- Reads an array. -/
def list (r : Reader α) : Reader (List α)
  | 0, .array _ _ => .error (.fault .broken)
  | room + 1, .array ds close => do
    let as ← items r room ds
    closing close as
  | _, d => .error (d.mismatch "a sequence")

/-- Reads each of some members. -/
def entries (r : Reader α) (room : Nat) :
    List (Draft × Draft) → Except ReadError (List (String × α))
  | [] => .ok []
  | (key, d) :: members => do
    let name ← key.name
    let a ← r room d
    let rest ← entries r room members
    return (name, a) :: rest

/-- Reads an object with names of any sort, of which the last entry under each name
counts; the result is sorted by name. -/
def byName (r : Reader α) : Reader (List (String × α))
  | 0, .object _ _ => .error (.fault .broken)
  | room + 1, .object members close => do
    let found ← entries r room members
    closing close (sortByName found)
  | _, d => .error (d.mismatch "a map")

/-! ## One of several names -/

/-- The value under a name, or the refusal of the name. -/
def pick (known : List (String × α)) (name : String) : Except ReadError α :=
  match getByName? name known with
  | some a => .ok a
  | none => .error (.unknownVariant name (known.map (·.1)))

/-- Reads one of the known names where nothing but a text can name it. -/
def identifier (known : List (String × α)) : Draft → Except ReadError α
  | .scalar (.text s) => pick known s
  | d => .error (d.mismatch "variant identifier")

/-- Reads a value that says nothing and must be `null`. -/
def unit : Draft → Except ReadError Unit
  | .scalar .null => .ok ()
  | d => .error (d.mismatch "unit")

/-- Reads one of the known names, written as a text or as the only key of an object
whose value is `null`.  What is neither a text nor an object is no JSON here. -/
def choice (known : List (String × α)) : Reader α
  | _, .scalar (.text s) => pick known s
  | _, .scalar (.spoiled .text flaw) => .error (.fault flaw.whenRead)
  | _, .missing f => .error (.fault f)
  | room, .object members close =>
    match room, members with
    | 0, _ => .error (.fault .broken)
    | _ + 1, [] => .error (.fault (close.getD .broken))
    | _ + 1, (key, v) :: rest => do
      let name ← key.name
      let a ← pick known name
      unit v
      if rest.isEmpty then closing close a else .error (.fault .broken)
  | _, _ => .error (.fault .broken)

/-! ## Nesting -/

/-- A reader of values that contain values of their own sort.  Each of those stands
in at least one bracket more, so as many rounds as there is room suffice. -/
def nested (body : Reader α → Reader α) : (rounds : Nat) → Reader α
  | 0 => body fun _ _ => .error (.fault .broken)
  | rounds + 1 => body (nested body rounds)

/-- A reader of values that contain values of their own sort. -/
def recursive (body : Reader α → Reader α) : Reader α := fun room d => nested body room room d

/-! ## Whole texts -/

/-- Reads a text that holds one value and nothing else. -/
def run (r : Reader α) (text : String) : Except ReadError α := do
  let reading := Reading.ofText text.toList
  let a ← r depth reading.draft
  if reading.leftover then .error (.fault .broken) else return a

end Reader

end BlockRobot
