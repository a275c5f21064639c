import BlockRobot.Board
import BlockRobot.Game

/-!
# Free practice

On the practice board there is nothing to reach.  The robot leaves a trail of all
cells it stood on and counts its moves, and a move that would leave the board ends
the run, with the robot on the last cell of the board.  Each instruction is shown
once, when it is done.
-/

namespace BlockRobot

/-- The state of a practice session. -/
structure PracticeState where
  position : Cell
  facing : Facing
  /-- Every cell the robot stood on, the first included, in order. -/
  trail : List Cell
  /-- Cells moved so far; the count stops at the largest 32-bit number. -/
  moves : Nat
  status : Status
  message : String
deriving DecidableEq

namespace PracticeState

/-- The largest number of moves that is counted. -/
def largestMoves : Nat := 2 ^ 32 - 1

/-- The robot on the start of a board, idle. -/
def initial (b : Board) : PracticeState := ⟨b.start, b.facing, [b.start], 0, .idle, ""⟩

/-- A state as a value. -/
def toJson (s : PracticeState) : Json :=
  .object [("position", s.position.toJson), ("facing", s.facing.toJson),
    ("trail", .array (s.trail.map Cell.toJson)), ("moves", .ofInt s.moves),
    ("status", s.status.toJson), ("message", .text s.message)]

/-- The text of a state. -/
def toText (s : PracticeState) : String := s.toJson.toText

/-- The record of a state. -/
def record : Record PracticeState where
  name := "PracticeState"
  fields := [
    .of "position" .always Cell.reader fun s position => { s with position },
    .of "facing" .always Facing.reader fun s facing => { s with facing },
    .of "trail" .always (.list Cell.reader) fun s trail => { s with trail },
    .of "moves" .always .natural32 fun s moves => { s with moves },
    .of "status" .always Status.reader fun s status => { s with status },
    .of "message" .never .text fun s message => { s with message }]
  blank := ⟨⟨0, 0⟩, .north, [], 0, .idle, ""⟩

/-- Reads a state from a text. -/
def ofText (text : String) : Except ReadError PracticeState := record.read.run text

/-- The cell that a step would enter. -/
def ahead (s : PracticeState) (back : Bool) : Cell := s.position.step s.facing back

/-- The state after entering `c`. -/
def entered (s : PracticeState) (c : Cell) : PracticeState :=
  { s with position := c, trail := s.trail ++ [c], moves := min (s.moves + 1) largestMoves }

/-- The state after trying to leave the board. -/
def left (s : PracticeState) : PracticeState :=
  { s with status := .error, message := edgeMessage }

end PracticeState

namespace Practice

/-- Walks a number of cells: the state reached, and whether the robot stayed on the
board. -/
def walk (b : Board) (back : Bool) : Nat → PracticeState → PracticeState × Verdict
  | 0, s => (s, .goOn)
  | n + 1, s =>
    let c := s.ahead back
    if !b.inBounds c then (s.left, .ended .collision) else walk b back n (s.entered c)

@[simp] theorem walk_zero (b : Board) (back : Bool) (s : PracticeState) :
    walk b back 0 s = (s, .goOn) := rfl

theorem walk_succ_of_not_inBounds {b : Board} {back : Bool} {n : Nat} {s : PracticeState}
    (h : b.inBounds (s.ahead back) = false) :
    walk b back (n + 1) s = (s.left, .ended .collision) := by
  simp [walk, h]

theorem walk_succ {b : Board} {back : Bool} {n : Nat} {s : PracticeState}
    (h : b.inBounds (s.ahead back) = true) :
    walk b back (n + 1) s = walk b back n (s.entered (s.ahead back)) := by
  simp [walk, h]

/-- What an instruction does on a board. -/
def apply (b : Board) (op : Op) (s : PracticeState) : Response PracticeState PracticeState :=
  match op with
  | .start _ => .showing { s with status := .running, message := "" } .goOn
  | .move steps _ =>
    let (s, verdict) := walk b (steps < 0) steps.natAbs s
    .showing s verdict
  | .turn side _ => .showing { s with facing := s.facing.turned side } .goOn
  | .wait _ _ => .quiet s
  | .loop _ _ id => .loopRefused id s

/-- The practice game of a board. -/
def game (b : Board) : Game PracticeState PracticeState where
  reset _ := ([.initial b], .initial b)
  apply := apply b

end Practice

end BlockRobot
