import BlockRobot.Grid

/-!
# The practice board

A board is a rectangle of cells with a start, and nothing else: no walls and no
goal.  It is never checked, so the start may lie beside the board.
-/

namespace BlockRobot

/-- A practice board. -/
structure Board where
  width : Int
  height : Int
  start : Cell
  facing : Facing
deriving DecidableEq

namespace Board

/-- The board of a size, with the robot at the origin and looking north. -/
def ofSize (width height : Int) : Board := ⟨width, height, ⟨0, 0⟩, .north⟩

/-- Whether a cell lies on the board. -/
def inBounds (b : Board) (c : Cell) : Bool := withinSize b.width b.height c

/-- A board as a value. -/
def toJson (b : Board) : Json :=
  .object [("width", .ofInt b.width), ("height", .ofInt b.height), ("start", b.start.toJson),
    ("facing", b.facing.toJson)]

/-- The text of a board. -/
def toText (b : Board) : String := b.toJson.toText

/-- The record of a board. -/
def record : Record Board where
  name := "Board"
  fields := [
    .of "width" .always .integer32 fun b width => { b with width },
    .of "height" .always .integer32 fun b height => { b with height },
    .of "start" .always Cell.reader fun b start => { b with start },
    .of "facing" .never Facing.reader fun b facing => { b with facing }]
  blank := ofSize 0 0

/-- Reads a board from a text. -/
def ofText (text : String) : Except ReadError Board := record.read.run text

end Board

end BlockRobot
