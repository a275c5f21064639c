import BlockRobot.Program
import BlockRobot.Json.Record

/-!
# Programs as JSON texts

An instruction is written as an object whose member `type` names its kind.  It is
read from such an object, the members in any order, or from an array of the kind
and the fields in order.

## Why an instruction is read in two steps

The fields depend on the kind, and the kind may stand last.  So all members but
`type` are first taken as they are (`Draft.value`), and the fields are read from
what was taken when the object is whole.  A fault of the text inside an instruction
is therefore reported before a field of the wrong sort that stands further left;
an unknown kind, however, is reported where it stands.

The body of a loop is read from values already taken.  There a kind may also be
given by its number, and the side of a turn as an object with the side as its only
key and nothing, `null` or an empty object, as its value.
-/

namespace BlockRobot

namespace Op

/-- The kinds of instructions. -/
inductive Kind where
  | start
  | move
  | turn
  | loop
  | wait
deriving DecidableEq

/-- The fields that instructions have. -/
inductive Part where
  | steps
  | side
  | times
  | body
  | ms
  | id
deriving DecidableEq

/-- The kinds and their names, in order. -/
def kinds : List (String × Kind) :=
  [("start", .start), ("move", .move), ("turn", .turn), ("repeat", .loop), ("wait", .wait)]

/-- The sides and their names. -/
def sides : List (String × Side) := [("left", .left), ("right", .right)]

namespace Part

/-- The name a field is written under. -/
def name : Part → String
  | steps => "steps"
  | side => "direction"
  | times => "times"
  | body => "body"
  | ms => "ms"
  | id => "blockId"

end Part

namespace Kind

/-- The fields of a kind, in order. -/
def parts : Kind → List Part
  | start => [.id]
  | move => [.steps, .id]
  | turn => [.side, .id]
  | loop => [.times, .body, .id]
  | wait => [.ms, .id]

/-- The name of a kind where the kind is expected. -/
def title : Kind → String
  | start => "Op::Start"
  | move => "Op::Move"
  | turn => "Op::Turn"
  | loop => "Op::Repeat"
  | wait => "Op::Wait"

end Kind

/-! ## Writing -/

mutual

/-- An instruction as a value. -/
def toJson : Op → Json
  | start id => .object [("type", .text "start"), ("blockId", .text id)]
  | move steps id =>
    .object [("type", .text "move"), ("steps", .ofInt steps), ("blockId", .text id)]
  | turn side id =>
    .object [("type", .text "turn"), ("direction", .text side.name), ("blockId", .text id)]
  | loop times body id =>
    .object [("type", .text "repeat"), ("times", .ofDouble times), ("body", .array (listToJson body)),
      ("blockId", .text id)]
  | wait ms id => .object [("type", .text "wait"), ("ms", .ofDouble ms), ("blockId", .text id)]

/-- Instructions as values. -/
def listToJson : List Op → List Json
  | [] => []
  | op :: ops => toJson op :: listToJson ops

end

/-! ## Reading fields from values already taken -/

/-- What is known of an instruction while its fields are read. -/
structure Parts where
  steps : Option Int := none
  side : Option Side := none
  times : Option Double := none
  body : Option (List Op) := none
  ms : Option Double := none
  id : Option String := none

namespace Parts

/-- Whether a field has been read. -/
def has (p : Parts) : Part → Bool
  | .steps => p.steps.isSome
  | .side => p.side.isSome
  | .times => p.times.isSome
  | .body => p.body.isSome
  | .ms => p.ms.isSome
  | .id => p.id.isSome

/-- A field that must have been read. -/
def need {α : Type} (part : Part) : Option α → Except ReadError α
  | some a => .ok a
  | none => .error (.missingField part.name)

/-- The instruction of a kind that the fields make. -/
def assemble (p : Parts) : Kind → Except ReadError Op
  | .start => return start (← need .id p.id)
  | .move => do
    let steps ← need .steps p.steps
    let id ← need .id p.id
    return Op.move steps id
  | .turn => do
    let side ← need .side p.side
    let id ← need .id p.id
    return Op.turn side id
  | .loop => do
    let times ← need .times p.times
    let body ← need .body p.body
    let id ← need .id p.id
    return Op.loop times body id
  | .wait => do
    let ms ← need .ms p.ms
    let id ← need .id p.id
    return Op.wait ms id

end Parts

/-- The refusal of a value where `expected` should stand. -/
def mismatch (expected : String) : Json → ReadError
  | .null => .invalidType .null expected
  | .bool b => .invalidType (.bool b) expected
  | .number n => .invalidType n.found expected
  | .text s => .invalidType (.text s) expected
  | .array _ => .invalidType .sequence expected
  | .object _ => .invalidType .map expected

/-- A text. -/
def textOf : Json → Except ReadError String
  | .text s => .ok s
  | j => .error (mismatch "a string" j)

/-- A number of cells. -/
def stepsOf : Json → Except ReadError Int
  | .number (.integer i) =>
    if Double.leastInteger ≤ i ∧ i ≤ Double.largestInteger then .ok i
    else .error (.invalidValue (.integer i) "i32")
  | j => .error (mismatch "i32" j)

/-- A double. -/
def doubleOf : Json → Except ReadError Double
  | .number n => .ok n.toDouble
  | j => .error (mismatch "f64" j)

/-- The value that stands for nothing. -/
def nothingOf : Json → Except ReadError Unit
  | .null => .ok ()
  | .object [] => .ok ()
  | j => .error (mismatch "unit" j)

/-- A side, as a text or as the only key of an object that says nothing more. -/
def sideOf : Json → Except ReadError Side
  | .text s => Reader.pick sides s
  | .object [(name, value)] => do
    let side ← Reader.pick sides name
    nothingOf value
    return side
  | .object _ => .error (.invalidValue .map "map with a single key")
  | j => .error (mismatch "string or map" j)

/-- A kind, as a text or as a number. -/
def kindOf : Json → Except ReadError Kind
  | .text s => Reader.pick kinds s
  | .number (.integer i) =>
    if i < 0 then .error (.invalidType (.integer i) "variant identifier")
    else match kinds[i.toNat]? with
      | some (_, kind) => .ok kind
      | none => .error (.invalidValue (.integer i) "variant index 0 <= i < 5")
  | j => .error (mismatch "variant identifier" j)

/-- The kind among the members taken: the value of `type`, which must be there once.
The other members are left in order. -/
def splitKind : List (String × Json) → Option Kind →
    Except ReadError (Option Kind × List (String × Json))
  | [], kind => .ok (kind, [])
  | (name, value) :: members, kind =>
    if name = "type" then
      match kind with
      | some _ => .error (.duplicateField "type")
      | none => do
        let kind ← kindOf value
        splitKind members (some kind)
    else do
      let (kind, rest) ← splitKind members kind
      return (kind, (name, value) :: rest)

/-- The refusal of an array with too few fields. -/
def tooShort (kind : Kind) (index : Nat) : ReadError :=
  .invalidLength index
    ("struct variant " ++ kind.title ++ " with " ++ elementCount kind.parts.length)

/-- The refusal of an array with too many fields. -/
def tooLong (kind : Kind) (length : Nat) : ReadError :=
  .invalidLength length (elementCount kind.parts.length ++ " in sequence")

mutual

/-- Reads an instruction from a value already taken. -/
def ofJson : Json → Except ReadError Op
  | .array [] => .error (.missingField "type")
  | .array (tag :: fields) => do
    let kind ← kindOf tag
    let parts ← ofItems kind kind.parts fields 0 {}
    parts.assemble kind
  | .object members => do
    let (kind, _) ← splitKind members none
    match kind with
    | none => .error (.missingField "type")
    | some kind => do
      let parts ← ofMembers kind members {}
      parts.assemble kind
  | j => .error (mismatch "internally tagged enum Op" j)

/-- Reads the fields of a kind from members, in the order of the members; those that
are no fields of the kind, `type` among them, are passed over. -/
def ofMembers (kind : Kind) : List (String × Json) → Parts → Except ReadError Parts
  | [], parts => .ok parts
  | (name, value) :: members, parts =>
    match kind.parts.find? fun part => part.name = name with
    | none => ofMembers kind members parts
    | some part =>
      if parts.has part then .error (.duplicateField name)
      else do
        let parts ← fill part value parts
        ofMembers kind members parts

/-- Reads fields in order from the items of an array. -/
def ofItems (kind : Kind) : List Part → List Json → (index : Nat) → Parts → Except ReadError Parts
  | [], [], _, parts => .ok parts
  | [], extra, index, _ => .error (tooLong kind (index + extra.length))
  | _ :: _, [], index, _ => .error (tooShort kind index)
  | part :: due, value :: values, index, parts => do
    let parts ← fill part value parts
    ofItems kind due values (index + 1) parts

/-- Reads one field and adds it to what is known. -/
def fill (part : Part) (value : Json) (parts : Parts) : Except ReadError Parts :=
  match part, value with
  | .steps, value => return { parts with steps := some (← stepsOf value) }
  | .side, value => return { parts with side := some (← sideOf value) }
  | .times, value => return { parts with times := some (← doubleOf value) }
  | .ms, value => return { parts with ms := some (← doubleOf value) }
  | .id, value => return { parts with id := some (← textOf value) }
  | .body, .array items => return { parts with body := some (← listOfJson items) }
  | .body, value => .error (mismatch "a sequence" value)

/-- Reads the instructions of a body. -/
def listOfJson : List Json → Except ReadError (List Op)
  | [] => .ok []
  | item :: items => do
    let op ← ofJson item
    let ops ← listOfJson items
    return op :: ops

end

/-! ## Reading from a text -/

/-- Takes the members of an instruction as they are, but `type`, which is read where
it stands. -/
def takeMembers (room : Nat) :
    List (Draft × Draft) → Option Kind → Except ReadError (Option Kind × List (String × Json))
  | [], kind => .ok (kind, [])
  | (key, d) :: members, kind => do
    let name ← key.name
    if name = "type" then
      match kind with
      | some _ => .error (.duplicateField "type")
      | none =>
        let kind ← Reader.identifier kinds d
        takeMembers room members (some kind)
    else
      let value ← d.value room
      let (kind, rest) ← takeMembers room members kind
      return (kind, (name, value) :: rest)

/-- Reads an instruction. -/
def reader : Reader Op
  | 0, .array _ _ => .error (.fault .broken)
  | 0, .object _ _ => .error (.fault .broken)
  | _ + 1, .array [] close => do
    closing close ()
    .error (.missingField "type")
  | room + 1, .array (tag :: fields) close => do
    let kind ← Reader.identifier kinds tag
    let values ← Draft.valueItems room fields
    let values ← closing close values
    let parts ← ofItems kind kind.parts values 0 {}
    parts.assemble kind
  | room + 1, .object members close => do
    let taken ← takeMembers room members none
    match ← closing close taken with
    | (none, _) => .error (.missingField "type")
    | (some kind, members) => do
      let parts ← ofMembers kind members {}
      parts.assemble kind
  | _, d => .error (d.mismatch "internally tagged enum Op")

end Op

namespace Program

/-- A program as a value. -/
def toJson (p : Program) : Json := .object [("ops", .array (Op.listToJson p.ops))]

/-- The text of a program. -/
def toText (p : Program) : String := p.toJson.toText

/-- The record of a program. -/
def record : Record Program where
  name := "Program"
  fields := [.of "ops" .always (.list Op.reader) fun p ops => { p with ops }]
  blank := ⟨[]⟩

/-- Reads a program from a text. -/
def ofText (text : String) : Except ReadError Program := record.read.run text

end Program

end BlockRobot
