import BlockRobot.Proofs.Maze.Goal
import BlockRobot.Proofs.Practice.Trail

/-!
# What the games show

Both games show what they do, each in its own rhythm: the maze shows every cell the robot enters
and every collision, the practice board every instruction when it is done.  A wait is not shown,
and neither is a move of no cells.  All the same the screen is never behind the game
(`screen_is_never_stale`): it begins with the robot on the start, and at the end of a run, wherever
that is, it shows the state the game is left in.

* `Report.Shows` says this of a report.  It holds of every game that shows the states it comes to
  (`Run.shows_run`), which is a statement about single instructions; `Maze.showsStates_game` and
  `Practice.showsStates_game` are these statements.
* In the maze no cell is skipped.  A move is followed cell by cell (`Maze.isChain_frames_walk`), by
  induction on the cells to go: the cell the rest of the move starts on has just been shown.  On
  the board a move is shown only when it is done, so there is no such statement.
-/

namespace BlockRobot

/-- The screen shows a run from its first state to the state at its end. -/
structure Report.Shows {σ α : Type} (first : σ) (r : Report σ σ α) : Prop where
  head : (framesShown r.log).head? = some first
  last : (framesShown r.log).getLast? = some r.state

/-- A game that shows its states shows a run from beginning to end. -/
theorem Run.shows_run {σ α : Type} {g : Game σ σ} (hg : g.ShowsStates) (h : Host α σ) (p : Program)
    (initial : σ) (host : α) (hreset : (g.reset initial).1 = [(g.reset initial).2]) :
    (run g h p initial host).Shows (g.reset initial).2 := by
  refine ⟨?_, Run.getLast?_framesShown hg h p initial host (by rw [hreset]; rfl)⟩
  rw [Run.frames_run, hreset]
  rfl

/-- The practice board shows every state it comes to. -/
theorem Practice.showsStates_game (b : Board) : (Practice.game b).ShowsStates := by
  intro op s hop
  cases op with
  | loop times body id => cases hop
  | _ => rfl

/-! ## The maze, cell by cell -/

/-- One frame of the maze and the next: the robot stays where it is, or it looks the same way and
is on the cell next to the one it was on. -/
def MazeState.LeadsTo (s t : MazeState) : Prop :=
  t.position = s.position ∨ t.facing = s.facing ∧ s.position.Adjacent t.position

namespace Maze

variable {l : Level} {delay : Duration}

/-- A step leads from one frame to the next, whatever else changes. -/
theorem leadsTo_ahead (back : Bool) {s t : MazeState} (hfacing : t.facing = s.facing)
    (hposition : t.position = s.ahead back) : s.LeadsTo t :=
  .inr ⟨hfacing, hposition ▸ s.position.adjacent_step s.facing back⟩

/-- **The frames of a move lead from cell to cell**, from the one on which the robot stands. -/
theorem isChain_frames_walk (back : Bool) (n : Nat) (s : MazeState) :
    (s :: (walk l delay back n s).frames).IsChain MazeState.LeadsTo := by
  induction n generalizing s with
  | zero => exact .singleton s
  | succ n ih =>
    cases hopen : l.isOpen (s.ahead back) with
    | false =>
      rw [frames_walk_collision hopen]
      exact List.isChain_pair.2 (.inl rfl)
    | true =>
      by_cases hgoal : s.ahead back = l.goal
      · rw [frames_walk_goal hopen hgoal]
        exact List.isChain_pair.2 (leadsTo_ahead back rfl rfl)
      · rw [frames_walk_succ hopen hgoal]
        exact List.isChain_cons_cons.2 ⟨leadsTo_ahead back rfl rfl, ih _⟩

/-- The frames of an instruction lead from cell to cell. -/
theorem isChain_frames_apply (delay : Duration) {op : Op} (hop : op.isLoop = false)
    (s : MazeState) : (s :: ((game l delay).apply op s).frames).IsChain MazeState.LeadsTo := by
  cases op with
  | move steps id => exact isChain_frames_walk _ _ s
  | wait ms id => exact .singleton s
  | loop times body id => cases hop
  | _ => exact List.isChain_pair.2 (.inl rfl)

end Maze

/-! ## Whole runs -/

/-- **The screen is never stale.**  Whatever the level or the board, the program and the host are,
and however the run ends, the first frame is the state in which the game begins, and the last is
the state it is left in.  In the maze every frame leads to the next: the robot stays on its cell,
or enters the cell next to it, looking the same way, so that no cell is skipped. -/
theorem screen_is_never_stale (p : Program) :
    (∀ (l : Level) (delay : Duration) {α : Type} (h : Host α MazeState) (initial : MazeState)
      (host : α),
      (run (Maze.game l delay) h p initial host).Shows (.initial l) ∧
        (framesShown (run (Maze.game l delay) h p initial host).log).IsChain MazeState.LeadsTo) ∧
    ∀ (b : Board) {α : Type} (h : Host α PracticeState) (initial : PracticeState) (host : α),
      (run (Practice.game b) h p initial host).Shows (.initial b) := by
  refine ⟨fun l delay α h initial host => ⟨?_, ?_⟩, fun b α h initial host => ?_⟩
  · exact Run.shows_run (Maze.showsStates_game l delay) h p initial host rfl
  · exact Run.isChain_framesShown (Maze.showsStates_game l delay)
      (fun _ s hop => Maze.isChain_frames_apply delay hop s) h p initial host rfl
  · exact Run.shows_run (Practice.showsStates_game b) h p initial host rfl

/-- The reset, the start, a turn and a step off the level are shown, and a wait is not. -/
example : (framesShown (run (Maze.game Maze.corridor ⟨0⟩) (Timetable.host MazeState)
    ⟨[.start "s", .turn .left "l", .wait .zero "w", .move 1 "m"]⟩ (.initial Maze.corridor)
      {}).log).map MazeState.facing = [.east, .east, .north, .north] := by
  decide +kernel

end BlockRobot
