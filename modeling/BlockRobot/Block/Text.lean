import BlockRobot.Block

/-!
# Drawings as JSON texts

The editor writes a drawing as an object `blocks` around the version of its language
and the list of stacks; a block is an object with its links inside.  Fields and
inputs are left out when there are none, and so is an absent link, while a link that
holds nothing is written as an empty object.
-/

namespace BlockRobot

namespace Block

/-- A member for an object that is written only if it has members. -/
def objectMember (name : String) : List (String × Json) → List (String × Json)
  | [] => []
  | members => [(name, .object members)]

mutual

/-- A block as a value. -/
def toJson : Block → Json
  | ⟨tag, id, x, y, fields, inputs, next⟩ =>
    .object
      ([("type", .text tag), ("id", .text id), ("x", .ofDouble x), ("y", .ofDouble y)] ++
        (objectMember "fields" fields ++ (objectMember "inputs" (inputsToJson inputs) ++
          nextToJson next)))

/-- The blocks in inputs as members. -/
def inputsToJson : List (String × Link Block) → List (String × Json)
  | [] => []
  | (name, ⟨block, shadow⟩) :: inputs =>
    (name, .object (blockToJson "block" block ++ blockToJson "shadow" shadow)) ::
      inputsToJson inputs

/-- The link to the block below as members. -/
def nextToJson : Option (Link Block) → List (String × Json)
  | none => []
  | some ⟨block, shadow⟩ =>
    [("next", .object (blockToJson "block" block ++ blockToJson "shadow" shadow))]

/-- A block that may be absent as members. -/
def blockToJson (name : String) : Option Block → List (String × Json)
  | none => []
  | some b => [(name, toJson b)]

end

/-- The record of a link, with a reader for the blocks it holds. -/
def linkRecord (block : Reader Block) : Record (Link Block) where
  name := "Connection"
  fields := [
    .of "block" .never (.option block) fun l block => { l with block },
    .of "shadow" .never (.option block) fun l shadow => { l with shadow }]
  blank := ⟨none, none⟩

/-- The record of a block, with a reader for the blocks it holds. -/
def record (block : Reader Block) : Record Block where
  name := "Block"
  fields := [
    .of "type" .always .text fun b tag => { b with tag },
    .of "id" .never .text fun b id => { b with id },
    .of "x" .never .double fun b x => { b with x },
    .of "y" .never .double fun b y => { b with y },
    .of "fields" .never (.byName .json) fun b fields => { b with fields },
    .of "inputs" .never (.byName (linkRecord block).read) fun b inputs => { b with inputs },
    .of "next" .never (.option (linkRecord block).read) fun b next => { b with next }]
  blank := bare "" ""

/-- Reads a block. -/
def reader : Reader Block := .recursive fun block => (record block).read

end Block

namespace Workspace

/-- A drawing as a value. -/
def toJson (w : Workspace) : Json :=
  .object [("blocks", .object [("languageVersion", .ofInt w.languageVersion),
    ("blocks", .array (w.heads.map Block.toJson))])]

/-- The text of a drawing. -/
def toText (w : Workspace) : String := w.toJson.toText

/-- The record of the stacks of a drawing. -/
def stacksRecord : Record Workspace where
  name := "TopBlocks"
  fields := [
    .of "languageVersion" .never .natural32 fun w languageVersion => { w with languageVersion },
    .of "blocks" .never (.list Block.reader) fun w heads => { w with heads }]
  blank := ⟨0, []⟩

/-- The record of a drawing. -/
def record : Record Workspace where
  name := "BlockGraph"
  fields := [.of "blocks" .never stacksRecord.read fun _ w => w]
  blank := ⟨0, []⟩

/-- Why a text gives no drawing, in words. -/
def malformedMessage (e : ReadError) : String := "malformed workspace: " ++ e.message

/-- Reads a drawing from a text. -/
def ofText (text : String) : Except ReadError Workspace := record.read.run text

end Workspace

end BlockRobot
