import BlockRobot.Json.Record
import BlockRobot.Program

/-!
# The grid

Cells are pairs of integers; `y` grows to the north and `x` to the east.  A robot
stands on a cell and looks in one of four directions, which a turn changes by a
quarter; a step goes to the neighbouring cell ahead or behind.

The integers have no bounds.  `Cell.withinSize_wrapped_step` is why that is no loss
against coordinates of 32 bits.
-/

namespace BlockRobot

/-- A cell of the grid. -/
structure Cell where
  x : Int
  y : Int
deriving DecidableEq

/-- Where a robot looks. -/
inductive Facing where
  | north
  | east
  | south
  | west
deriving DecidableEq

namespace Facing

instance : Inhabited Facing := ⟨north⟩

/-- How far one step ahead goes east. -/
def dx : Facing → Int
  | north => 0
  | east => 1
  | south => 0
  | west => -1

/-- How far one step ahead goes north. -/
def dy : Facing → Int
  | north => 1
  | east => 0
  | south => -1
  | west => 0

/-- Where a robot looks after a quarter turn to the right. -/
def clockwise : Facing → Facing
  | north => east
  | east => south
  | south => west
  | west => north

/-- Where a robot looks after a quarter turn to the left. -/
def anticlockwise : Facing → Facing
  | north => west
  | west => south
  | south => east
  | east => north

/-- Where a robot looks after a turn. -/
def turned (f : Facing) : Side → Facing
  | .left => f.anticlockwise
  | .right => f.clockwise

@[simp] theorem turned_left (f : Facing) : f.turned .left = f.anticlockwise := rfl
@[simp] theorem turned_right (f : Facing) : f.turned .right = f.clockwise := rfl

/-- The facings and their names. -/
def known : List (String × Facing) :=
  [("north", north), ("east", east), ("south", south), ("west", west)]

/-- The name of a facing. -/
def name : Facing → String
  | north => "north"
  | east => "east"
  | south => "south"
  | west => "west"

/-- A facing as a value. -/
def toJson (f : Facing) : Json := .text f.name

/-- The text of a facing. -/
def toText (f : Facing) : String := f.toJson.toText

/-- Reads a facing. -/
def reader : Reader Facing := .choice known

/-- Reads a facing from a text. -/
def ofText (text : String) : Except ReadError Facing := reader.run text

end Facing

namespace Cell

instance : Inhabited Cell := ⟨⟨0, 0⟩⟩

/-- The neighbouring cell ahead, or behind if `back`. -/
def step (c : Cell) (f : Facing) (back : Bool) : Cell :=
  if back then ⟨c.x - f.dx, c.y - f.dy⟩ else ⟨c.x + f.dx, c.y + f.dy⟩

@[simp] theorem step_ahead (c : Cell) (f : Facing) :
    c.step f false = ⟨c.x + f.dx, c.y + f.dy⟩ := rfl

@[simp] theorem step_behind (c : Cell) (f : Facing) :
    c.step f true = ⟨c.x - f.dx, c.y - f.dy⟩ := rfl

/-- A step the other way leads back. -/
theorem step_step_not (c : Cell) (f : Facing) (back : Bool) :
    (c.step f back).step f (!back) = c := by
  obtain ⟨x, y⟩ := c
  cases back <;> simp only [step, Bool.not_true, Bool.not_false, if_true, Bool.false_eq_true,
    if_false, Cell.mk.injEq] <;> omega

/-- A cell as it is shown. -/
def display (c : Cell) : String := "(" ++ toString c.x ++ ", " ++ toString c.y ++ ")"

/-- The order of cells by `x` and then by `y`. -/
def before (a b : Cell) : Bool := a.x < b.x || (a.x = b.x && a.y < b.y)

/-- A cell as a value. -/
def toJson (c : Cell) : Json := .object [("x", .ofInt c.x), ("y", .ofInt c.y)]

/-- The record of a cell. -/
def record : Record Cell where
  name := "Pos"
  fields := [
    .of "x" .always .integer32 fun c x => { c with x },
    .of "y" .always .integer32 fun c y => { c with y }]
  blank := ⟨0, 0⟩

/-- Reads a cell. -/
def reader : Reader Cell := record.read

/-- Reads a cell from a text. -/
def ofText (text : String) : Except ReadError Cell := reader.run text

end Cell

/-- Whether a cell lies in the rectangle of a size whose corner is the origin. -/
def withinSize (width height : Int) (c : Cell) : Bool :=
  0 ≤ c.x && c.x < width && 0 ≤ c.y && c.y < height

theorem withinSize_iff {width height : Int} {c : Cell} :
    withinSize width height c = true ↔ (0 ≤ c.x ∧ c.x < width) ∧ 0 ≤ c.y ∧ c.y < height := by
  simp only [withinSize, Bool.and_eq_true, decide_eq_true_eq, and_assoc]

end BlockRobot
