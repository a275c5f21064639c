import BlockRobot.Proofs.Maze.Safety
import BlockRobot.Proofs.Practice.Trail

/-!
# A level without walls is a practice board

The maze and the practice board are two games with two walks.  Where there are no walls, they
differ only in that the maze ends on the goal: a program that nobody stops takes the robot the
same way in both, up to there (`Practice.run_maze_eq_run`).

The states of the two games have four fields in common, and `Agrees` compares these.  What is
compared beyond the states is how things go on, and there are two ways for this
(`InStep`, and `ToursInStep` for the calls as well).

* The games are *together*: the same verdict, which is not a win, on states that agree.
* The maze is *won*.  Then it does not go on, and all that is left to say is that the trail of
  the practice board, on which the program does go on, holds the goal.  It will hold it to the
  end, for no instruction takes a cell off the trail (`mem_trail_tour`).

That is why the comparison is not a simulation: behind a win the two states have nothing to do
with each other any more.  One induction over the cells of a move (`walk_inStep`) and one over
the instructions (`tour_inStep`) carry both cases.
-/

namespace BlockRobot

namespace Level

/-- A level as a practice board, without its goal and its walls. -/
def board (l : Level) : Board := ⟨l.width, l.height, l.start, l.facing⟩

/-- Without walls all cells of a level are open. -/
theorem isOpen_eq_inBounds_board {l : Level} (hwalls : l.walls = []) (c : Cell) :
    l.isOpen c = l.board.inBounds c := by
  simp [isOpen, isWall, hwalls, inBounds, board, Board.inBounds]

end Level

namespace Practice

variable {l : Level} {delay : Duration}

/-! ## Cells stay on the trail -/

theorem mem_trail_walk {b : Board} (back : Bool) (n : Nat) {s : PracticeState} {c : Cell}
    (hc : c ∈ s.trail) : c ∈ (walk b back n s).1.trail := by
  induction n generalizing s with
  | zero => exact hc
  | succ n ih =>
    cases hin : b.inBounds (s.ahead back) with
    | false =>
      rw [walk_succ_of_not_inBounds hin]
      exact hc
    | true =>
      rw [walk_succ hin]
      exact ih (List.mem_append_left _ hc)

theorem mem_trail_apply {b : Board} (op : Op) {s : PracticeState} {c : Cell} (hc : c ∈ s.trail) :
    c ∈ ((game b).apply op s).state.trail := by
  cases op with
  | move steps id => exact mem_trail_walk _ _ hc
  | _ => exact hc

/-- **A cell on the trail stays there**, whatever instructions come. -/
theorem mem_trail_tour {b : Board} (ops : List Op) {s : PracticeState} {c : Cell}
    (hc : c ∈ s.trail) : c ∈ ((game b).tour ops s).state.trail := by
  obtain ⟨walked, -, -, hstate, -⟩ := (game b).tour_spec ops s
  rw [hstate]
  exact Game.after_keeps_always (P := fun t : PracticeState => c ∈ t.trail)
    (fun op _ _ ht => mem_trail_apply op ht) walked hc

/-! ## One instruction in both games -/

/-- A state of the maze and one of a practice board that tell the same of the robot. -/
structure Agrees (m : MazeState) (s : PracticeState) : Prop where
  position : m.position = s.position
  facing : m.facing = s.facing
  status : m.status = s.status
  message : m.message = s.message

/-- The robot looks at the same cell in states that agree. -/
theorem Agrees.ahead {m : MazeState} {s : PracticeState} (h : Agrees m s) (back : Bool) :
    m.ahead back = s.ahead back := by
  rw [MazeState.ahead, PracticeState.ahead, h.position, h.facing]

theorem agrees_initial (l : Level) : Agrees (.initial l) (.initial l.board) := ⟨rfl, rfl, rfl, rfl⟩

/-- How the maze and a practice board stand to each other after the same instruction: the
states they are left in, each with the verdict. -/
inductive InStep (l : Level) : MazeState → Verdict → PracticeState → Verdict → Prop
  /-- Both go on, or end, alike. -/
  | together {m : MazeState} {s : PracticeState} {v : Verdict} (agrees : Agrees m s)
      (unwon : v ≠ .ended .win) : InStep l m v s v
  /-- The maze is won, and the goal has been entered on the board too. -/
  | won {m : MazeState} {s : PracticeState} {v : Verdict} (entered : l.goal ∈ s.trail) :
      InStep l m (.ended .win) s v

/-- **Two walks in step.**  They look at the same cells, which are open if they are on the
board. -/
theorem walk_inStep (hwalls : l.walls = []) (delay : Duration) (back : Bool) (n : Nat)
    {m : MazeState} {s : PracticeState} (h : Agrees m s) :
    InStep l (Maze.walk l delay back n m).state (Maze.walk l delay back n m).verdict
      (walk l.board back n s).1 (walk l.board back n s).2 := by
  induction n generalizing m s with
  | zero => exact .together h nofun
  | succ n ih =>
    have hahead : m.ahead back = s.ahead back := h.ahead back
    have hopen : l.isOpen (m.ahead back) = l.board.inBounds (s.ahead back) := by
      rw [hahead, Level.isOpen_eq_inBounds_board hwalls]
    cases hin : l.board.inBounds (s.ahead back) with
    | false =>
      have hclosed : l.isOpen (m.ahead back) = false := hopen.trans hin
      have hoff : l.inBounds (m.ahead back) = false := by
        rw [hahead]
        exact hin
      rw [Maze.walk_succ_of_not_isOpen hclosed, walk_succ_of_not_inBounds hin]
      refine .together ⟨h.position, h.facing, rfl, ?_⟩ nofun
      simp only [MazeState.collided, hoff, Bool.false_eq_true, if_false, PracticeState.left]
    | true =>
      have hclear : l.isOpen (m.ahead back) = true := hopen.trans hin
      rw [walk_succ hin]
      by_cases hgoal : m.ahead back = l.goal
      · rw [Maze.walk_succ_goal hclear hgoal]
        have hentered : l.goal ∈ (s.entered (s.ahead back)).trail := by
          rw [← hgoal, hahead]
          exact List.mem_append_right _ (List.mem_singleton_self _)
        exact .won (mem_trail_walk back n hentered)
      · rw [Maze.walk_succ hclear hgoal]
        exact ih ⟨hahead, h.facing, h.status, h.message⟩

/-- **Every instruction is in step**, if it is no loop. -/
theorem apply_inStep (hwalls : l.walls = []) (delay : Duration) {op : Op}
    (hop : op.isLoop = false) {m : MazeState} {s : PracticeState} (h : Agrees m s) :
    InStep l ((Maze.game l delay).apply op m).state ((Maze.game l delay).apply op m).verdict
      ((game l.board).apply op s).state ((game l.board).apply op s).verdict := by
  cases op with
  | start id => exact .together ⟨h.position, h.facing, rfl, rfl⟩ nofun
  | move steps id => exact walk_inStep hwalls delay _ _ h
  | turn side id =>
    refine .together ⟨h.position, ?_, h.status, h.message⟩ nofun
    exact congrArg (Facing.turned · side) h.facing
  | wait ms id => exact .together h nofun
  | loop times body id => cases hop

/-! ## Tours of both games -/

/-- How the tours of the same instructions in both games stand to each other. -/
inductive ToursInStep (l : Level) (t : Tour MazeState) (u : Tour PracticeState) : Prop
  /-- The same calls, the same verdict, and states that agree. -/
  | together (calls : t.calls = u.calls) (verdict : t.verdict = u.verdict)
      (unwon : t.verdict ≠ .ended .win) (agrees : Agrees t.state u.state)
  /-- The maze is won, and the board makes the same calls up to there. -/
  | won (calls : t.calls <+: u.calls) (verdict : t.verdict = .ended .win)
      (entered : l.goal ∈ u.state.trail)

/-- What an instruction comes to in step, with the same calls, is a tour in step. -/
theorem InStep.tours {m : MazeState} {s : PracticeState} {v w : Verdict} (h : InStep l m v s w)
    (calls : List Call) : ToursInStep l ⟨calls, m, v⟩ ⟨calls, s, w⟩ := by
  cases h with
  | together agrees unwon => exact .together rfl rfl unwon agrees
  | won entered => exact .won List.prefix_rfl rfl entered

theorem take_inStep (hwalls : l.walls = []) (delay : Duration) (op : Op) {m : MazeState}
    {s : PracticeState} (h : Agrees m s) :
    ToursInStep l ((Maze.game l delay).take op m) ((game l.board).take op s) := by
  cases hop : op.isLoop with
  | true =>
    have hquiet : InStep l m .goOn s .goOn := .together h nofun
    simp only [Game.take, hop, if_true]
    exact hquiet.tours op.calls
  | false =>
    rw [Game.take_of_not_isLoop _ hop, Game.take_of_not_isLoop _ hop]
    exact (apply_inStep hwalls delay hop h).tours op.calls

/-- Tours in step can be put one behind the other. -/
theorem ToursInStep.andThen {t : Tour MazeState} {u : Tour PracticeState}
    {tnext : MazeState → Tour MazeState} {unext : PracticeState → Tour PracticeState}
    (h : ToursInStep l t u)
    (hkept : ∀ s, l.goal ∈ s.trail → l.goal ∈ (unext s).state.trail)
    (hnext : ∀ m s, Agrees m s → ToursInStep l (tnext m) (unext s)) :
    ToursInStep l (t.andThen tnext) (u.andThen unext) := by
  cases h with
  | together calls verdict unwon agrees =>
    by_cases hgo : t.verdict = .goOn
    · rw [Tour.andThen_of_goOn hgo, Tour.andThen_of_goOn (verdict ▸ hgo)]
      cases hnext _ _ agrees with
      | together calls' verdict' unwon' agrees' =>
        exact .together (by rw [calls, calls']) verdict' unwon' agrees'
      | won calls' verdict' entered' =>
        refine .won ?_ verdict' entered'
        rw [calls]
        exact (List.prefix_append_right_inj _).2 calls'
    · rw [Tour.andThen_of_ne_goOn hgo, Tour.andThen_of_ne_goOn (verdict ▸ hgo)]
      exact .together calls verdict unwon agrees
  | won calls verdict entered =>
    have hend : t.verdict ≠ .goOn := by
      rw [verdict]
      exact nofun
    rw [Tour.andThen_of_ne_goOn hend]
    refine .won (calls.trans (u.calls_prefix_andThen unext)) verdict ?_
    -- the board goes on or not; either way the goal stays on the trail
    by_cases hgo : u.verdict = .goOn
    · rw [Tour.andThen_of_goOn hgo]
      exact hkept u.state entered
    · rw [Tour.andThen_of_ne_goOn hgo]
      exact entered

/-- **The tours of a flat list are in step.** -/
theorem tour_inStep (hwalls : l.walls = []) (delay : Duration) (ops : List Op) {m : MazeState}
    {s : PracticeState} (h : Agrees m s) :
    ToursInStep l ((Maze.game l delay).tour ops m) ((game l.board).tour ops s) := by
  induction ops generalizing m s with
  | nil => exact .together rfl rfl nofun h
  | cons op ops ih =>
    rw [Game.tour_cons, Game.tour_cons]
    exact (take_inStep hwalls delay op h).andThen (fun _ hs => mem_trail_tour ops hs)
      fun _ _ hagrees => ih hagrees

/-! ## Whole runs -/

/-- **The maze without walls and the practice board.**  Let a program run in a level without
walls, and on the board of that level, and let nobody stop either run.  If the maze is not won,
the runs make the same calls and end in the same way, with the same position, facing, status
and message.  If it is won, then its calls are the first of those on the board, and the goal is
on the trail at the end there. -/
theorem run_maze_eq_run (hwalls : l.walls = []) (delay : Duration) (p : Program) {α β : Type}
    (hm : Host α MazeState) (hp : Host β PracticeState) (initialm : MazeState)
    (initialp : PracticeState) (hostm : α) (hostp : β)
    (hunm : (run (Maze.game l delay) hm p initialm hostm).Unstopped)
    (hunp : (run (game l.board) hp p initialp hostp).Unstopped) :
    ((run (Maze.game l delay) hm p initialm hostm).ending ≠ .outcome .win →
      (run (Maze.game l delay) hm p initialm hostm).calls =
        (run (game l.board) hp p initialp hostp).calls ∧
      (run (Maze.game l delay) hm p initialm hostm).ending =
        (run (game l.board) hp p initialp hostp).ending ∧
      Agrees (run (Maze.game l delay) hm p initialm hostm).state
        (run (game l.board) hp p initialp hostp).state) ∧
    ((run (Maze.game l delay) hm p initialm hostm).ending = .outcome .win →
      (run (Maze.game l delay) hm p initialm hostm).calls <+:
        (run (game l.board) hp p initialp hostp).calls ∧
      l.goal ∈ (run (game l.board) hp p initialp hostp).state.trail) := by
  obtain ⟨hcallsm, hstatem, hendm⟩ :=
    Run.run_of_unstopped (Maze.game l delay) hm p initialm hostm hunm
  obtain ⟨hcallsp, hstatep, hendp⟩ :=
    Run.run_of_unstopped (game l.board) hp p initialp hostp hunp
  have hstep : ToursInStep l (Run.programTour (Maze.game l delay) p initialm)
      (Run.programTour (game l.board) p initialp) :=
    tour_inStep hwalls delay (Op.unrolledAll p.ops) (agrees_initial l)
  rw [hcallsm, hstatem, hendm, hcallsp, hstatep, hendp]
  cases hstep with
  | together calls verdict unwon agrees =>
    refine ⟨fun _ => ⟨calls, by rw [verdict], agrees⟩, fun hwin => ?_⟩
    exact absurd (Verdict.ending_eq_outcome_iff.1 hwin) unwon
  | won calls verdict entered =>
    refine ⟨fun hunwon => ?_, fun _ => ⟨calls, entered⟩⟩
    exact absurd (Verdict.ending_eq_outcome_iff.2 verdict) hunwon

/-- A lane of three cells with the goal in the middle. -/
def lane : Level := ⟨"lane", 3, 1, ⟨0, 0⟩, .east, ⟨1, 0⟩, []⟩

/-- Over the goal of the lane to its end. -/
def overTheGoal : Program := ⟨[.start "s", .move 2 "m"]⟩

/-- Off the lane, backwards. -/
def offTheLane : Program := ⟨[.start "s", .loop (.ofInt 2) [.move (-1) "m"] "o"]⟩

/-- A run in the lane as a maze, while the host waits for nothing. -/
def throughLane (p : Program) : Report MazeState MazeState (Timetable MazeState) :=
  run (Maze.game lane ⟨0⟩) (Timetable.host MazeState) p (.initial lane) {}

/-- A run on the board of the lane, while the host waits for nothing. -/
def alongLane (p : Program) : Report PracticeState PracticeState (Timetable PracticeState) :=
  run (game lane.board) (Timetable.host PracticeState) p (.initial lane.board) {}

theorem lane_in_step :
    ((throughLane overTheGoal).ending = .outcome .win ∧ (alongLane overTheGoal).ending = .done ∧
      (throughLane overTheGoal).calls <+: (alongLane overTheGoal).calls ∧
      lane.goal ∈ (alongLane overTheGoal).state.trail) ∧
    (throughLane offTheLane).ending = .outcome .collision ∧
      (throughLane offTheLane).ending = (alongLane offTheLane).ending ∧
      Agrees (throughLane offTheLane).state (alongLane offTheLane).state := by
  have hwin : (throughLane overTheGoal).ending = .outcome .win := by decide +kernel
  have hedge : (throughLane offTheLane).ending = .outcome .collision := by decide +kernel
  obtain ⟨-, hwon⟩ := run_maze_eq_run (l := lane) rfl ⟨0⟩ overTheGoal (Timetable.host MazeState)
    (Timetable.host PracticeState) (.initial lane) (.initial lane.board) {} {}
    (by decide +kernel) (by decide +kernel)
  obtain ⟨htogether, -⟩ := run_maze_eq_run (l := lane) rfl ⟨0⟩ offTheLane (Timetable.host MazeState)
    (Timetable.host PracticeState) (.initial lane) (.initial lane.board) {} {}
    (by decide +kernel) (by decide +kernel)
  have hunwon : (throughLane offTheLane).ending ≠ .outcome .win := by
    rw [hedge]
    exact nofun
  obtain ⟨-, hending, hagrees⟩ := htogether hunwon
  exact ⟨⟨hwin, by decide +kernel, hwon hwin⟩, hedge, hending, hagrees⟩

end Practice

end BlockRobot
