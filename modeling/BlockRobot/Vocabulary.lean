import BlockRobot.Json.Record

/-!
# Vocabularies

Each game draws its programs with block types of its own.  A vocabulary says which
types play which role, and under which names a block holds its numbers and the body
of a loop.  A type listed under several roles plays the first of them, in the order
in which `Role` lists the roles.
-/

namespace BlockRobot

/-- What a block does in a program. -/
inductive Role where
  | start
  | move
  | back
  | turnLeft
  | turnRight
  | loop
  | wait
deriving DecidableEq

/-- Puts a tag into a sorted list of tags, unless it is there. -/
def putTag (tag : String) : List String → List String
  | [] => [tag]
  | t :: ts => if tag < t then tag :: t :: ts else if tag = t then t :: ts else t :: putTag tag ts

/-- The tags of a list in order, each once. -/
def sortTags (tags : List String) : List String :=
  tags.foldl (fun sorted tag => putTag tag sorted) []

/-- The names under which blocks hold what the compiler reads. -/
structure FieldNames where
  /-- The number of cells of a move. -/
  steps : String
  /-- How often a loop runs. -/
  times : String
  /-- How long a wait lasts. -/
  ms : String
  /-- The input that holds the body of a loop. -/
  body : String
deriving DecidableEq

/-- Which block types play which role; the tags of each role are sorted. -/
structure Vocabulary where
  start : List String
  move : List String
  back : List String
  turnLeft : List String
  turnRight : List String
  loop : List String
  wait : List String
  fields : FieldNames
deriving DecidableEq

namespace FieldNames

/-- The names that editors use unless told otherwise. -/
def usual : FieldNames := ⟨"STEPS", "TIMES", "MS", "DO"⟩

/-- Field names as a value. -/
def toJson (f : FieldNames) : Json :=
  .object [("steps", .text f.steps), ("times", .text f.times), ("ms", .text f.ms),
    ("body", .text f.body)]

/-- The record of field names. -/
def record : Record FieldNames where
  name := "FieldNames"
  fields := [
    .of "steps" .never .text fun f steps => { f with steps },
    .of "times" .never .text fun f times => { f with times },
    .of "ms" .never .text fun f ms => { f with ms },
    .of "body" .never .text fun f body => { f with body }]
  blank := usual

end FieldNames

namespace Vocabulary

/-- The vocabulary in which no type plays a role. -/
def silent : Vocabulary := ⟨[], [], [], [], [], [], [], .usual⟩

/-- The vocabulary of the maze. -/
def maze : Vocabulary where
  start := ["maze_start"]
  move := ["maze_move_forward"]
  back := ["maze_move_backward"]
  turnLeft := ["maze_turn_left"]
  turnRight := ["maze_turn_right"]
  loop := ["controls_repeat", "controls_repeat_ext", "maze_repeat"]
  wait := ["maze_wait"]
  fields := .usual

/-- The vocabulary of the practice board. -/
def practice : Vocabulary where
  start := ["practice_start"]
  move := ["practice_forward"]
  back := ["practice_back"]
  turnLeft := ["practice_left"]
  turnRight := ["practice_right"]
  loop := ["controls_repeat", "controls_repeat_ext", "practice_repeat"]
  wait := ["practice_wait"]
  fields := .usual

/-- The roles in order, each with the tags that play it. -/
def roles (v : Vocabulary) : List (List String × Role) :=
  [(v.start, .start), (v.move, .move), (v.back, .back), (v.turnLeft, .turnLeft),
    (v.turnRight, .turnRight), (v.loop, .loop), (v.wait, .wait)]

/-- The role a block type plays. -/
def roleOf? (v : Vocabulary) (tag : String) : Option Role :=
  (v.roles.find? fun entry => entry.1.contains tag).map (·.2)

/-! ## Text -/

/-- The tags of a role as a value. -/
def tagsToJson (tags : List String) : Json := .array (tags.map .text)

/-- A vocabulary as a value. -/
def toJson (v : Vocabulary) : Json :=
  .object [("start", tagsToJson v.start), ("move", tagsToJson v.move), ("back", tagsToJson v.back),
    ("turnLeft", tagsToJson v.turnLeft), ("turnRight", tagsToJson v.turnRight),
    ("repeat", tagsToJson v.loop), ("wait", tagsToJson v.wait), ("fields", v.fields.toJson)]

/-- The text of a vocabulary. -/
def toText (v : Vocabulary) : String := v.toJson.toText

/-- The text of a value that is one. -/
def textOf? : Json → Option String
  | .text s => some s
  | _ => none

/-- The tags a value lists: one text, or an array of texts. -/
def tagsOf? : Json → Option (List String)
  | .text s => some [s]
  | .array items => (items.mapM textOf?).map sortTags
  | _ => none

/-- Reads the tags of a role.  The value is taken whole before its form is looked at. -/
def tagsReader : Reader (List String) := fun room d => do
  match tagsOf? (← d.value room) with
  | some tags => return tags
  | none => .error (.noForm "OneOrMany")

/-- The record of a vocabulary. -/
def record : Record Vocabulary where
  name := "CompileOptions"
  fields := [
    .of "start" .never tagsReader fun v start => { v with start },
    .of "move" .never tagsReader fun v move => { v with move },
    .of "back" .never tagsReader fun v back => { v with back },
    .of "turnLeft" .never tagsReader fun v turnLeft => { v with turnLeft },
    .of "turnRight" .never tagsReader fun v turnRight => { v with turnRight },
    .of "repeat" .never tagsReader fun v loop => { v with loop },
    .of "wait" .never tagsReader fun v wait => { v with wait },
    .of "fields" .never FieldNames.record.read fun v fields => { v with fields }]
  blank := silent

/-- Reads a vocabulary from a text. -/
def ofText (text : String) : Except ReadError Vocabulary := record.read.run text

end Vocabulary

end BlockRobot
