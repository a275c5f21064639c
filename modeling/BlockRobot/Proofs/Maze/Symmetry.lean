import BlockRobot.Proofs.Maze.Safety
import BlockRobot.Proofs.Run.Images

/-!
# The symmetries of the maze

No direction of the grid is special.  If a level is turned by a quarter, the same program makes the
same run of it, only turned; and if it is reflected, the program with left and right exchanged makes
the reflected run (`Maze.runs_respect_symmetries`).  Both hold in front of any hosts that ask for
stops at the same moments, so in particular for any schedule of stops
(`Timetable.matches_host`).

A `Level.Symmetry` is a map of cells and a map of facings that go together: steps go to steps, turns
to turns (to the same side or to the other), and the cells of one level to cells of the other, of
which as many are inside and as many are walls.  Two levels that are related so have games that are
images of one another (`Level.Symmetry.image`): one proof serves every symmetry, and what is
peculiar to the rotation and to the reflection is only that they are symmetries (`Level.rotation`,
`Level.reflection`).  There the sizes matter: cells are turned around the corner of a level whose
width has become its height.
-/

namespace BlockRobot

/-! ## Rotated and mirrored -/

/-- A cell of a level of a width, after the level was turned clockwise by a quarter. -/
def Cell.rotated (width : Int) (c : Cell) : Cell := ⟨c.y, width - 1 - c.x⟩

/-- A cell of a level of a width, after the level was reflected from east to west. -/
def Cell.mirrored (width : Int) (c : Cell) : Cell := ⟨width - 1 - c.x, c.y⟩

/-- A facing with east and west exchanged. -/
def Facing.mirrored : Facing → Facing
  | north => north
  | east => west
  | south => south
  | west => east

namespace Level

/-- The level turned clockwise by a quarter. -/
def rotated (l : Level) : Level where
  id := l.id
  width := l.height
  height := l.width
  start := l.start.rotated l.width
  facing := l.facing.clockwise
  goal := l.goal.rotated l.width
  walls := sortCells (l.walls.map (Cell.rotated l.width))

/-- The level reflected from east to west. -/
def mirrored (l : Level) : Level where
  id := l.id
  width := l.width
  height := l.height
  start := l.start.mirrored l.width
  facing := l.facing.mirrored
  goal := l.goal.mirrored l.width
  walls := sortCells (l.walls.map (Cell.mirrored l.width))

end Level

namespace MazeState

/-- The state in the level of a width turned clockwise by a quarter. -/
def rotated (width : Int) (s : MazeState) : MazeState :=
  { s with position := s.position.rotated width, facing := s.facing.clockwise }

/-- The state in the level of a width reflected from east to west. -/
def mirrored (width : Int) (s : MazeState) : MazeState :=
  { s with position := s.position.mirrored width, facing := s.facing.mirrored }

end MazeState

/-! ## Symmetries -/

/-- A map of the grid that carries one level to another, together with what becomes of the sides of
turns. -/
structure Level.Symmetry (l l' : Level) where
  cell : Cell → Cell
  facing : Facing → Facing
  side : Side → Side
  step : ∀ c f back, (cell c).step (facing f) back = cell (c.step f back)
  turned : ∀ f s, (facing f).turned (side s) = facing (f.turned s)
  injective : ∀ c d, cell c = cell d → c = d
  id_eq : l'.id = l.id
  start_eq : l'.start = cell l.start
  facing_eq : l'.facing = facing l.facing
  goal_eq : l'.goal = cell l.goal
  inBounds_eq : ∀ c, l'.inBounds (cell c) = l.inBounds c
  isWall_eq : ∀ c, l'.isWall (cell c) = l.isWall c

namespace Cell

variable (width : Int)

theorem step_rotated (c : Cell) (f : Facing) (back : Bool) :
    (c.rotated width).step f.clockwise back = (c.step f back).rotated width := by
  cases f <;> cases back <;>
    simp only [step_ahead, step_behind, rotated, Facing.clockwise, Facing.dx, Facing.dy,
      Cell.mk.injEq, true_and] <;>
    omega

theorem step_mirrored (c : Cell) (f : Facing) (back : Bool) :
    (c.mirrored width).step f.mirrored back = (c.step f back).mirrored width := by
  cases f <;> cases back <;>
    simp only [step_ahead, step_behind, mirrored, Facing.mirrored, Facing.dx, Facing.dy,
      Cell.mk.injEq, and_true] <;>
    omega

theorem rotated_injective (c d : Cell) (h : c.rotated width = d.rotated width) : c = d := by
  obtain ⟨x, y⟩ := c
  obtain ⟨x', y'⟩ := d
  simp only [rotated, Cell.mk.injEq] at h ⊢
  omega

theorem mirrored_injective (c d : Cell) (h : c.mirrored width = d.mirrored width) : c = d := by
  obtain ⟨x, y⟩ := c
  obtain ⟨x', y'⟩ := d
  simp only [mirrored, Cell.mk.injEq] at h ⊢
  omega

end Cell

namespace Facing

theorem turned_clockwise (f : Facing) (side : Side) :
    f.clockwise.turned side = (f.turned side).clockwise := by
  cases f <;> cases side <;> rfl

theorem turned_mirrored (f : Facing) (side : Side) :
    f.mirrored.turned side.other = (f.turned side).mirrored := by
  cases f <;> cases side <;> rfl

end Facing

/-- A level can be played if its start and its goal are open; its size is positive then. -/
theorem Level.problem?_eq_none_iff {l : Level} :
    l.problem? = none ↔ l.isOpen l.start = true ∧ l.isOpen l.goal = true := by
  constructor
  · intro h
    cases hgoal : l.isOpen l.goal with
    | true => exact ⟨isOpen_start_of_problem? h, rfl⟩
    | false =>
      rw [problem?, hgoal] at h
      split at h
      · cases h
      · split at h <;> cases h
  · rintro ⟨hstart, hgoal⟩
    obtain ⟨⟨hx, hx'⟩, hy, hy'⟩ := withinSize_iff.1 ((l.isOpen_iff _).1 hstart).1
    rw [problem?, if_neg (by omega), hstart, hgoal]
    rfl

/-- If the walls of a level are mapped one by one, the cells that are walls are mapped. -/
theorem contains_sortCells_map {cell : Cell → Cell} (hcell : ∀ c d, cell c = cell d → c = d)
    (walls : List Cell) (c : Cell) :
    (sortCells (walls.map cell)).contains (cell c) = walls.contains c := by
  rw [Bool.eq_iff_iff, List.contains_iff_mem, List.contains_iff_mem, mem_sortCells, List.mem_map]
  constructor
  · rintro ⟨d, hd, heq⟩
    exact hcell d c heq ▸ hd
  · exact fun hc => ⟨c, hc, rfl⟩

namespace Level

theorem inBounds_rotated (l : Level) (c : Cell) :
    l.rotated.inBounds (c.rotated l.width) = l.inBounds c := by
  rw [Bool.eq_iff_iff, inBounds, inBounds, withinSize_iff, withinSize_iff]
  simp only [rotated, Cell.rotated]
  omega

theorem inBounds_mirrored (l : Level) (c : Cell) :
    l.mirrored.inBounds (c.mirrored l.width) = l.inBounds c := by
  rw [Bool.eq_iff_iff, inBounds, inBounds, withinSize_iff, withinSize_iff]
  simp only [mirrored, Cell.mirrored]
  omega

/-- **A quarter turn is a symmetry**, and turns keep their sides. -/
def rotation (l : Level) : Symmetry l l.rotated where
  cell := Cell.rotated l.width
  facing := Facing.clockwise
  side side := side
  step := Cell.step_rotated l.width
  turned := Facing.turned_clockwise
  injective := Cell.rotated_injective l.width
  id_eq := rfl
  start_eq := rfl
  facing_eq := rfl
  goal_eq := rfl
  inBounds_eq := l.inBounds_rotated
  isWall_eq := contains_sortCells_map (Cell.rotated_injective l.width) l.walls

/-- **A reflection is a symmetry** that exchanges the sides of turns. -/
def reflection (l : Level) : Symmetry l l.mirrored where
  cell := Cell.mirrored l.width
  facing := Facing.mirrored
  side := Side.other
  step := Cell.step_mirrored l.width
  turned := Facing.turned_mirrored
  injective := Cell.mirrored_injective l.width
  id_eq := rfl
  start_eq := rfl
  facing_eq := rfl
  goal_eq := rfl
  inBounds_eq := l.inBounds_mirrored
  isWall_eq := contains_sortCells_map (Cell.mirrored_injective l.width) l.walls

namespace Symmetry

variable {l l' : Level} (sym : Symmetry l l')

theorem isOpen_eq (c : Cell) : l'.isOpen (sym.cell c) = l.isOpen c := by
  rw [isOpen, isOpen, sym.inBounds_eq, sym.isWall_eq]

include sym in
/-- **A level can be played if its image can.** -/
theorem problem?_eq_none_iff : l'.problem? = none ↔ l.problem? = none := by
  rw [Level.problem?_eq_none_iff, Level.problem?_eq_none_iff, sym.start_eq, sym.goal_eq,
    sym.isOpen_eq, sym.isOpen_eq]

/-- The image of a state. -/
def state (s : MazeState) : MazeState :=
  { s with position := sym.cell s.position, facing := sym.facing s.facing }

theorem ahead_state (s : MazeState) (back : Bool) :
    (sym.state s).ahead back = sym.cell (s.ahead back) := sym.step s.position s.facing back

theorem collided_state (s : MazeState) (c : Cell) :
    (sym.state s).collided l' (sym.cell c) = sym.state (s.collided l c) := by
  rw [MazeState.collided, MazeState.collided, sym.inBounds_eq]
  rfl

theorem map_pace (delay : Duration) :
    (Maze.pace delay).map (Act.map sym.state) = Maze.pace delay := by
  rw [Maze.pace]
  split <;> rfl

/-- **One move**, seen from the other level. -/
theorem walk_state (delay : Duration) (back : Bool) (n : Nat) (s : MazeState) :
    Maze.walk l' delay back n (sym.state s) =
      (Maze.walk l delay back n s).map sym.state sym.state := by
  induction n generalizing s with
  | zero => rfl
  | succ n ih =>
    have hahead := sym.ahead_state s back
    have hopen' := sym.isOpen_eq (s.ahead back)
    rw [← hahead] at hopen'
    cases hopen : l.isOpen (s.ahead back) with
    | false =>
      rw [Maze.walk_succ_of_not_isOpen hopen, Maze.walk_succ_of_not_isOpen (hopen'.trans hopen),
        hahead, sym.collided_state, Response.map, List.map_append, sym.map_pace]
      rfl
    | true =>
      by_cases hgoal : s.ahead back = l.goal
      · have hgoal' : (sym.state s).ahead back = l'.goal := by rw [hahead, hgoal, sym.goal_eq]
        rw [Maze.walk_succ_goal hopen hgoal, Maze.walk_succ_goal (hopen'.trans hopen) hgoal',
          hahead, Response.map, List.map_append, sym.map_pace]
        rfl
      · have hgoal' : (sym.state s).ahead back ≠ l'.goal := by
          rw [hahead, sym.goal_eq]
          exact fun h => hgoal (sym.injective _ _ h)
        have hmoved : { sym.state s with position := (sym.state s).ahead back } =
            sym.state { s with position := s.ahead back } := by
          rw [hahead]
          rfl
        rw [Maze.walk_succ hopen hgoal, Maze.walk_succ (hopen'.trans hopen) hgoal', hmoved, ih,
          Response.map, Response.map, List.map_append, sym.map_pace]
        rfl

/-- **The game of a level is the image of the game of a level symmetric to it.** -/
theorem image (delay : Duration) :
    (Maze.game l delay).Image (Maze.game l' delay) sym.side sym.state sym.state where
  reset s := by
    have hinitial : MazeState.initial l' = sym.state (.initial l) := by
      rw [MazeState.initial, sym.id_eq, sym.start_eq, sym.facing_eq]
      rfl
    show ([MazeState.initial l'], MazeState.initial l') = _
    rw [hinitial]
    rfl
  apply op s hop := by
    cases op with
    | start id => rfl
    | move steps id => exact sym.walk_state delay (steps < 0) steps.natAbs s
    | turn side id =>
      have hturned : (sym.facing s.facing).turned (sym.side side) =
          sym.facing (s.facing.turned side) := sym.turned s.facing side
      show Response.showing
        { sym.state s with facing := (sym.facing s.facing).turned (sym.side side) } .goOn = _
      rw [hturned]
      rfl
    | loop times body id => cases hop
    | wait ms id => rfl

end Symmetry

end Level

/-! ## Runs -/

namespace Maze

/-- **The runs of a maze respect the symmetries of the grid.**  Hosts that match ask for stops at
the same moments.  In front of them the same program makes the rotated run in the rotated level, and
the program with the sides exchanged at every depth makes the mirrored run in the mirrored level:
the notifications, the ending, the status and the message are the same, and the robot stands and
looks the rotated or the mirrored way. -/
theorem runs_respect_symmetries (l : Level) (delay : Duration) (p : Program)
    (s s' : MazeState) {α β : Type} {h : Host α MazeState} {h' : Host β MazeState}
    {S : α → β → Prop} {a : α} {b : β} (hab : S a b) :
    (h.Matches h' (fun side => side) (MazeState.rotated l.width) S →
      (run (game l.rotated delay) h' p s' b).hooks = (run (game l delay) h p s a).hooks ∧
        (run (game l.rotated delay) h' p s' b).ending = (run (game l delay) h p s a).ending ∧
        (run (game l.rotated delay) h' p s' b).state =
          (run (game l delay) h p s a).state.rotated l.width) ∧
      (h.Matches h' Side.other (MazeState.mirrored l.width) S →
        (run (game l.mirrored delay) h' (p.withSides .other) s' b).hooks =
            (run (game l delay) h p s a).hooks ∧
          (run (game l.mirrored delay) h' (p.withSides .other) s' b).ending =
            (run (game l delay) h p s a).ending ∧
          (run (game l.mirrored delay) h' (p.withSides .other) s' b).state =
            (run (game l delay) h p s a).state.mirrored l.width) := by
  constructor
  · intro hh
    have himage := (l.rotation.image delay).run hh p s hab
    rw [Level.rotation, p.withSides_self] at himage
    exact ⟨himage.hooks_eq, himage.ending, himage.state⟩
  · intro hh
    have himage := (l.reflection.image delay).run hh p s hab
    exact ⟨himage.hooks_eq, himage.ending, himage.state⟩

/-- A level that is wider than it is high, with a wall in the middle. -/
def bent : Level := ⟨"bent", 3, 2, ⟨0, 0⟩, .east, ⟨2, 1⟩, [⟨1, 1⟩]⟩

/-- The way around the wall, with a turn in a loop. -/
def aroundTheWall : Program :=
  ⟨[.start "s", .move 2 "m", .loop (.ofInt 1) [.turn .left "t"] "l", .move 1 "g"]⟩

/-- A watch that keeps a log of all frames, and stops the run when `id` is announced. -/
def watch (id : String) : Timetable MazeState :=
  { surface := some "board", triggers := [⟨"step", some id, 1⟩] }

/-- The way around the wall in some level, with a watch that stops the run at `id`. -/
def watched (l : Level) (p : Program) (id : String) :
    Report MazeState MazeState (Timetable MazeState) :=
  run (game l ⟨0⟩) (Timetable.host MazeState) p (.initial bent) (watch id)

/-- Not stopped, the robot comes to the goal; stopped in the loop, it has turned and not gone on.
In the rotated and in the mirrored level it does so too. -/
theorem bent_respects_symmetries :
    (watched bent aroundTheWall "").ending = .outcome .win ∧
      (watched bent.rotated aroundTheWall "").ending = .outcome .win ∧
      (watched bent.rotated aroundTheWall "").state.position = bent.rotated.goal ∧
      (watched bent aroundTheWall "t").ending = .stopped ∧
      (watched bent.mirrored (aroundTheWall.withSides .other) "t").hooks =
        (watched bent aroundTheWall "t").hooks ∧
      (watched bent.mirrored (aroundTheWall.withSides .other) "t").state =
        ⟨"bent", ⟨0, 0⟩, .north, .running, ""⟩ := by
  have hwin : (watched bent aroundTheWall "").ending = .outcome .win := by decide +kernel
  have hgoal : (watched bent aroundTheWall "").state.position = bent.goal := by decide +kernel
  have hstopped : (watched bent aroundTheWall "t").ending = .stopped := by decide +kernel
  have hstate : (watched bent aroundTheWall "t").state =
      ⟨"bent", ⟨2, 0⟩, .north, .running, ""⟩ := by
    decide +kernel
  obtain ⟨-, hending, hrotated⟩ := (runs_respect_symmetries bent ⟨0⟩ aroundTheWall (.initial bent)
    (.initial bent) (S := fun t t' => t' = t.recast (MazeState.rotated 3)) (a := watch "") rfl).1
      (Timetable.matches_host (MazeState.rotated 3) _)
  obtain ⟨hhooks, -, hmirrored⟩ := (runs_respect_symmetries bent ⟨0⟩ aroundTheWall (.initial bent)
    (.initial bent) (S := fun t t' => t' = t.recast (MazeState.mirrored 3)) (a := watch "t") rfl).2
      (Timetable.matches_host (MazeState.mirrored 3) _)
  have hturned : (watched bent.rotated aroundTheWall "").state =
      (watched bent aroundTheWall "").state.rotated 3 := hrotated
  have hreflected : (watched bent.mirrored (aroundTheWall.withSides .other) "t").state =
      (watched bent aroundTheWall "t").state.mirrored 3 := hmirrored
  refine ⟨hwin, hending.trans hwin, ?_, hstopped, hhooks, ?_⟩
  · rw [hturned]
    show (watched bent aroundTheWall "").state.position.rotated 3 = bent.goal.rotated 3
    rw [hgoal]
  · rw [hreflected, hstate]
    rfl

end Maze

end BlockRobot
