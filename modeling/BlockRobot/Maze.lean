import BlockRobot.Game
import BlockRobot.Level

/-!
# The maze

The robot walks a level cell by cell.  Trying to enter a cell that is not open ends
the run in a collision, with the robot where it was; entering the goal ends it with
a win.  Every cell entered is shown, and so is a collision, so a watcher misses no
cell of the walk.  Before each cell the game can sleep for a while, to let the
watcher see the walk.

The goal is looked at only when a move enters it: a robot that starts on the goal
has not reached it.
-/

namespace BlockRobot

/-- The state of a maze game. -/
structure MazeState where
  levelId : String
  position : Cell
  facing : Facing
  status : Status
  message : String
deriving DecidableEq

namespace MazeState

/-- The robot on the start of a level, idle. -/
def initial (l : Level) : MazeState := ⟨l.id, l.start, l.facing, .idle, ""⟩

/-- A state as a value. -/
def toJson (s : MazeState) : Json :=
  .object [("levelId", .text s.levelId), ("position", s.position.toJson),
    ("facing", s.facing.toJson), ("status", s.status.toJson), ("message", .text s.message)]

/-- The text of a state. -/
def toText (s : MazeState) : String := s.toJson.toText

/-- The record of a state. -/
def record : Record MazeState where
  name := "MazeState"
  fields := [
    .of "levelId" .always .text fun s levelId => { s with levelId },
    .of "position" .always Cell.reader fun s position => { s with position },
    .of "facing" .always Facing.reader fun s facing => { s with facing },
    .of "status" .always Status.reader fun s status => { s with status },
    .of "message" .never .text fun s message => { s with message }]
  blank := ⟨"", ⟨0, 0⟩, .north, .idle, ""⟩

/-- Reads a state from a text. -/
def ofText (text : String) : Except ReadError MazeState := record.read.run text

/-- The state after running into `c`, which is not open. -/
def collided (s : MazeState) (l : Level) (c : Cell) : MazeState :=
  { s with status := .error, message := if l.inBounds c then wallMessage else edgeMessage }

/-- The state after entering the goal `c`. -/
def won (s : MazeState) (c : Cell) : MazeState :=
  { s with position := c, status := .win, message := winMessage }

/-- The cell that a step would enter. -/
def ahead (s : MazeState) (back : Bool) : Cell := s.position.step s.facing back

end MazeState

namespace Maze

/-- The sleep before each cell; none if it takes no time. -/
def pace (delay : Duration) : List (Act MazeState) :=
  if delay.nanoseconds = 0 then [] else [.slept delay]

/-- Walks a number of cells. -/
def walk (l : Level) (delay : Duration) (back : Bool) : Nat → MazeState →
    Response MazeState MazeState
  | 0, s => .quiet s
  | n + 1, s =>
    let c := s.ahead back
    if !l.isOpen c then
      let s := s.collided l c
      ⟨pace delay ++ [.shown s], s, .ended .collision⟩
    else if c = l.goal then
      let s := s.won c
      ⟨pace delay ++ [.shown s], s, .ended .win⟩
    else
      let s := { s with position := c }
      let r := walk l delay back n s
      ⟨pace delay ++ .shown s :: r.acts, r.state, r.verdict⟩

@[simp] theorem walk_zero (l : Level) (delay : Duration) (back : Bool) (s : MazeState) :
    walk l delay back 0 s = .quiet s := rfl

theorem walk_succ_of_not_isOpen {l : Level} {delay : Duration} {back : Bool} {n : Nat}
    {s : MazeState} (h : l.isOpen (s.ahead back) = false) :
    walk l delay back (n + 1) s =
      ⟨pace delay ++ [.shown (s.collided l (s.ahead back))], s.collided l (s.ahead back),
        .ended .collision⟩ := by
  simp [walk, h]

theorem walk_succ_goal {l : Level} {delay : Duration} {back : Bool} {n : Nat} {s : MazeState}
    (h : l.isOpen (s.ahead back) = true) (hg : s.ahead back = l.goal) :
    walk l delay back (n + 1) s =
      ⟨pace delay ++ [.shown (s.won (s.ahead back))], s.won (s.ahead back), .ended .win⟩ := by
  simp only [walk, h, Bool.not_true, Bool.false_eq_true, if_false, if_pos hg]

theorem walk_succ {l : Level} {delay : Duration} {back : Bool} {n : Nat} {s : MazeState}
    (h : l.isOpen (s.ahead back) = true) (hg : s.ahead back ≠ l.goal) :
    walk l delay back (n + 1) s =
      let r := walk l delay back n { s with position := s.ahead back }
      ⟨pace delay ++ .shown { s with position := s.ahead back } :: r.acts, r.state, r.verdict⟩ := by
  simp only [walk, h, Bool.not_true, Bool.false_eq_true, if_false, if_neg hg]

/-- What an instruction does in a level. -/
def apply (l : Level) (delay : Duration) (op : Op) (s : MazeState) :
    Response MazeState MazeState :=
  match op with
  | .start _ => .showing { s with status := .running, message := "" } .goOn
  | .move steps _ => walk l delay (steps < 0) steps.natAbs s
  | .turn side _ => .showing { s with facing := s.facing.turned side } .goOn
  | .wait _ _ => .quiet s
  | .loop _ _ id => .loopRefused id s

/-- The maze game of a level. -/
def game (l : Level) (delay : Duration) : Game MazeState MazeState where
  reset _ := ([.initial l], .initial l)
  apply := apply l delay

end Maze

end BlockRobot
