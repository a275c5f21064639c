import BlockRobot.Grid

/-!
# Levels of the maze

A level is a rectangle of cells with walls, a start and a goal.  Walls may lie
outside the rectangle, where they change nothing, since no cell there is open.

A level read from a text is checked (`Level.problem?`): its size must be positive
and its start and goal open.  The checks are made in this order and the first that
fails is reported.
-/

namespace BlockRobot

/-! ## Sets of cells -/

/-- Puts a cell into a list sorted by `Cell.before`, unless it is there. -/
def putCell (c : Cell) : List Cell → List Cell
  | [] => [c]
  | d :: ds => if c.before d then c :: d :: ds else if c = d then d :: ds else d :: putCell c ds

/-- The cells of a list in order, each once. -/
def sortCells (cs : List Cell) : List Cell := cs.foldl (fun sorted c => putCell c sorted) []

@[simp] theorem mem_putCell {a c : Cell} {cs : List Cell} :
    a ∈ putCell c cs ↔ a = c ∨ a ∈ cs := by
  induction cs with
  | nil => simp [putCell]
  | cons d ds ih =>
    simp only [putCell]
    split
    · simp
    · split
      · rename_i h
        simp [h]
      · simp only [List.mem_cons, ih]
        exact ⟨fun h => h.elim (.inr ∘ .inl) (Or.imp_right .inr),
          fun h => h.elim (.inr ∘ .inl) (Or.imp_right .inr)⟩

/-- Sorting neither loses a cell nor adds one. -/
@[simp] theorem mem_sortCells {a : Cell} {cs : List Cell} : a ∈ sortCells cs ↔ a ∈ cs := by
  have general : ∀ (cs sorted : List Cell),
      a ∈ cs.foldl (fun sorted c => putCell c sorted) sorted ↔ a ∈ cs ∨ a ∈ sorted := by
    intro cs
    induction cs with
    | nil => simp
    | cons c cs ih =>
      intro sorted
      rw [List.foldl_cons, ih, mem_putCell, List.mem_cons]
      constructor
      · rintro (h | h | h)
        · exact .inl (.inr h)
        · exact .inl (.inl h)
        · exact .inr h
      · rintro ((h | h) | h)
        · exact .inr (.inl h)
        · exact .inl h
        · exact .inr (.inr h)
  simp [sortCells, general]

/-- A maze level. -/
structure Level where
  id : String
  width : Int
  height : Int
  start : Cell
  facing : Facing
  goal : Cell
  /-- The walls, sorted, each once. -/
  walls : List Cell
deriving DecidableEq

namespace Level

/-- Whether a cell lies in the rectangle. -/
def inBounds (l : Level) (c : Cell) : Bool := withinSize l.width l.height c

/-- Whether a cell is a wall. -/
def isWall (l : Level) (c : Cell) : Bool := l.walls.contains c

/-- Whether a robot can stand on a cell. -/
def isOpen (l : Level) (c : Cell) : Bool := l.inBounds c && !l.isWall c

theorem isOpen_iff (l : Level) (c : Cell) :
    l.isOpen c = true ↔ l.inBounds c = true ∧ c ∉ l.walls := by
  simp [isOpen, isWall]

/-! ## Checking -/

/-- Why a level cannot be played. -/
inductive Problem where
  | size (width height : Int)
  | start (c : Cell)
  | goal (c : Cell)
deriving DecidableEq

/-- A problem in words. -/
def Problem.message : Problem → String
  | size width height =>
    "size must be positive, got " ++ toString width ++ "x" ++ toString height
  | start c => "start " ++ c.display ++ " is not an open cell"
  | goal c => "goal " ++ c.display ++ " is not an open cell"

/-- What keeps a level from being played, if anything. -/
def problem? (l : Level) : Option Problem :=
  if l.width ≤ 0 ∨ l.height ≤ 0 then some (.size l.width l.height)
  else if !l.isOpen l.start then some (.start l.start)
  else if !l.isOpen l.goal then some (.goal l.goal)
  else none

/-- Why a text gives no level. -/
inductive Refusal where
  | malformed (e : ReadError)
  | invalid (id : String) (p : Problem)
deriving DecidableEq

/-- A refusal in words. -/
def Refusal.message : Refusal → String
  | malformed e => "malformed level: " ++ e.message
  | invalid id p => "invalid level '" ++ id ++ "': " ++ p.message

/-- A level that can be played, or why it cannot. -/
def checked (l : Level) : Except Refusal Level :=
  match l.problem? with
  | some p => .error (.invalid l.id p)
  | none => .ok l

/-! ## Text -/

/-- A level as a value. -/
def toJson (l : Level) : Json :=
  .object [("id", .text l.id), ("width", .ofInt l.width), ("height", .ofInt l.height),
    ("start", l.start.toJson), ("facing", l.facing.toJson), ("goal", l.goal.toJson),
    ("walls", .array (l.walls.map Cell.toJson))]

/-- The text of a level. -/
def toText (l : Level) : String := l.toJson.toText

/-- The record of a level. -/
def record : Record Level where
  name := "Level"
  fields := [
    .of "id" .always .text fun l id => { l with id },
    .of "width" .always .integer32 fun l width => { l with width },
    .of "height" .always .integer32 fun l height => { l with height },
    .of "start" .always Cell.reader fun l start => { l with start },
    .of "facing" .never Facing.reader fun l facing => { l with facing },
    .of "goal" .always Cell.reader fun l goal => { l with goal },
    .of "walls" .never (.list Cell.reader) fun l walls => { l with walls := sortCells walls }]
  blank := ⟨"", 0, 0, ⟨0, 0⟩, .north, ⟨0, 0⟩, []⟩

/-- Reads a level that can be played from a text. -/
def ofText (text : String) : Except Refusal Level :=
  match record.read.run text with
  | .error e => .error (.malformed e)
  | .ok l => l.checked

end Level

end BlockRobot
