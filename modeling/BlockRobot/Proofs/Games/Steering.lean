import BlockRobot.Maze
import BlockRobot.Practice
import BlockRobot.Proofs.Grid.Poses
import BlockRobot.Proofs.Run.Completion
import BlockRobot.Run.Timetable

/-!
# Steering

A game *steers* a robot if every instruction after which it goes on moves the pose of the robot as
the instruction says (`Game.Steers`), whatever else it does to the state.  Mazes and practice boards
both do (`Maze.steers_game`, `Practice.steers_game`): their walls, goals and edges decide whether
the game goes on, and never where it goes.

A tour on which the game goes on is then a product of motions, and a loop that is not left a power
of one (`Game.Steers.pose_walkOp_loop`).  Four rounds of a body that turns, but not by whole turns,
come home (`turning_loops_come_home`).
-/

namespace BlockRobot

namespace Game

variable {σ φ : Type}

/-- A game steers a robot if each instruction after which it goes on makes its motion, from the
pose in which the robot is. -/
def Steers (g : Game σ φ) (pose : σ → Pose) : Prop :=
  ∀ op s, op.isLoop = false → (g.apply op s).verdict = .goOn →
    pose (g.apply op s).state = pose s * op.motion

variable {g : Game σ φ} {pose : σ → Pose}

theorem Steers.take (hg : g.Steers pose) (op : Op) {s : σ} (hs : (g.take op s).verdict = .goOn) :
    pose (g.take op s).state = pose s * op.motion := by
  cases hop : op.isLoop with
  | true =>
    cases op with
    | loop times body id => exact (mul_one (pose s)).symm
    | _ => cases hop
  | false =>
    rw [g.take_of_not_isLoop hop] at hs ⊢
    exact hg op s hop hs

/-- **A tour on which the game goes on makes the motions of its instructions**, one after the
other. -/
theorem Steers.tour (hg : g.Steers pose) (ops : List Op) {s : σ}
    (hs : (g.tour ops s).verdict = .goOn) :
    pose (g.tour ops s).state = pose s * Op.motionAll ops := by
  induction ops generalizing s with
  | nil => exact (mul_one (pose s)).symm
  | cons op ops ih =>
    have hop : (g.take op s).verdict = .goOn := by
      by_contra hne
      rw [tour_cons, Tour.andThen_of_ne_goOn hne] at hs
      exact hne hs
    rw [tour_cons, Tour.andThen_of_goOn hop] at hs ⊢
    rw [ih hs, hg.take op hop, Op.motionAll_cons, mul_assoc]

/-- **A loop that is not left makes the motion of its body as often as it says.** -/
theorem Steers.pose_walkOp_loop (hg : g.Steers pose) {α : Type} (h : Host α φ) {times : Double}
    {body : List Op} {id : String} {w : World σ φ α}
    (hw : (Run.walkOp g h (.loop times body id) w).2 = none) :
    pose (Run.walkOp g h (.loop times body id) w).1.state =
      pose w.state * Op.motionAll (Op.unrolledAll body) ^ times.repetitions := by
  obtain ⟨hgo, hstate⟩ := Run.completes_walkOp_loop g h times body id w hw
  rw [hstate, hg.tour _ hgo, Op.motionAll_unrolled_loop]

/-- **A turning loop comes home**, if the number of its rounds is a multiple of four. -/
theorem Steers.comes_home (hg : g.Steers pose) {α : Type} (h : Host α φ) {times : Double}
    {body : List Op} {id : String} (hturn : ¬ 4 ∣ Op.netTurns body) (hfour : 4 ∣ times.repetitions)
    {w : World σ φ α} (hw : (Run.walkOp g h (.loop times body id) w).2 = none) :
    pose (Run.walkOp g h (.loop times body id) w).1.state = pose w.state := by
  rw [hg.pose_walkOp_loop h hw, Op.motionAll_pow_of_netTurns hturn hfour, mul_one]

end Game

/-! ## Mazes -/

/-- Where the robot in a maze stands and where it looks. -/
def MazeState.pose (s : MazeState) : Pose := ⟨s.position, s.facing⟩

namespace Maze

/-- A move after which the game goes on has moved the robot by all its cells, and done nothing
else. -/
theorem state_walk_of_goOn {l : Level} {delay : Duration} {back : Bool} {n : Nat} {s : MazeState}
    (hs : (walk l delay back n s).verdict = .goOn) :
    (walk l delay back n s).state = { s with position := s.position.steps s.facing back n } := by
  induction n generalizing s with
  | zero => rfl
  | succ n ih =>
    cases hopen : l.isOpen (s.ahead back) with
    | false =>
      rw [walk_succ_of_not_isOpen hopen] at hs
      cases hs
    | true =>
      by_cases hgoal : s.ahead back = l.goal
      · rw [walk_succ_goal hopen hgoal] at hs
        cases hs
      · rw [walk_succ hopen hgoal] at hs ⊢
        exact ih hs

/-- **A maze steers its robot.** -/
theorem steers_game (l : Level) (delay : Duration) : (game l delay).Steers MazeState.pose := by
  intro op s hop hs
  cases op with
  | start id => exact (mul_one s.pose).symm
  | move steps id =>
    have hstate := state_walk_of_goOn hs
    rw [Op.mul_motion_move]
    exact congrArg MazeState.pose hstate
  | turn side id => exact (Op.mul_motion_turn s.pose side id).symm
  | loop times body id => cases hop
  | wait ms id => exact (mul_one s.pose).symm

end Maze

/-! ## Practice boards -/

/-- Where the robot on a board stands and where it looks. -/
def PracticeState.pose (s : PracticeState) : Pose := ⟨s.position, s.facing⟩

namespace Practice

/-- A move after which the game goes on has moved the robot by all its cells. -/
theorem pose_walk_of_goOn {b : Board} {back : Bool} {n : Nat} {s : PracticeState}
    (hs : (walk b back n s).2 = .goOn) :
    (walk b back n s).1.pose = ⟨s.position.steps s.facing back n, s.facing⟩ := by
  induction n generalizing s with
  | zero => rfl
  | succ n ih =>
    cases hin : b.inBounds (s.ahead back) with
    | false =>
      rw [walk_succ_of_not_inBounds hin] at hs
      cases hs
    | true =>
      rw [walk_succ hin] at hs ⊢
      exact ih hs

/-- **A practice board steers its robot.** -/
theorem steers_game (b : Board) : (game b).Steers PracticeState.pose := by
  intro op s hop hs
  cases op with
  | start id => exact (mul_one s.pose).symm
  | move steps id =>
    rw [Op.mul_motion_move]
    exact pose_walk_of_goOn hs
  | turn side id => exact (Op.mul_motion_turn s.pose side id).symm
  | loop times body id => cases hop
  | wait ms id => exact (mul_one s.pose).symm

end Practice

/-! ## Coming home -/

/-- **Turning loops come home.**  Let one walk of a body, with the loops in it unrolled, make a net
number of quarter turns that is no multiple of four, and let a loop with this body have a multiple
of four rounds.  If the loop is walked in some maze or on some board, from any state and in front of
any host, and the walk is not left, then the robot stands where it stood and looks where it
looked. -/
theorem turning_loops_come_home (times : Double) (body : List Op) (id : String)
    (hturn : ¬ 4 ∣ Op.netTurns body) (hfour : 4 ∣ times.repetitions) {α β : Type} :
    (∀ (l : Level) (delay : Duration) (h : Host α MazeState) (w : World MazeState MazeState α),
      (Run.walkOp (Maze.game l delay) h (.loop times body id) w).2 = none →
        (Run.walkOp (Maze.game l delay) h (.loop times body id) w).1.state.position =
            w.state.position ∧
          (Run.walkOp (Maze.game l delay) h (.loop times body id) w).1.state.facing =
            w.state.facing) ∧
      ∀ (b : Board) (h : Host β PracticeState) (w : World PracticeState PracticeState β),
        (Run.walkOp (Practice.game b) h (.loop times body id) w).2 = none →
          (Run.walkOp (Practice.game b) h (.loop times body id) w).1.state.position =
              w.state.position ∧
            (Run.walkOp (Practice.game b) h (.loop times body id) w).1.state.facing =
              w.state.facing := by
  constructor
  · intro l delay h w hw
    have hpose := (Maze.steers_game l delay).comes_home h hturn hfour hw
    exact ⟨congrArg Pose.position hpose, congrArg Pose.facing hpose⟩
  · intro b h w hw
    have hpose := (Practice.steers_game b).comes_home h hturn hfour hw
    exact ⟨congrArg Pose.position hpose, congrArg Pose.facing hpose⟩

/-- One side of a square, with a loop for the two cells of it, and the turn behind it. -/
def sideOfSquare : List Op := [.loop (.ofInt 2) [.move 1 "m"] "l", .turn .right "t"]

/-- A level with the goal in the middle, around which the square goes. -/
def ring : Level := ⟨"ring", 3, 3, ⟨0, 0⟩, .north, ⟨1, 1⟩, []⟩

/-- A robot about to set out from a state, in front of a clock. -/
def settingOut {σ : Type} (s : σ) : World σ σ (Timetable σ) := (World.fresh s {}).enter .walking

/-- The walk around the square. -/
def aroundSquare {σ : Type} (g : Game σ σ) (s : σ) : Run.Stretch σ σ (Timetable σ) :=
  Run.walkOp g (Timetable.host σ) (.loop (.ofInt 4) sideOfSquare "o") (settingOut s)

theorem aroundSquare_comes_home :
    (Op.netTurns sideOfSquare = 1 ∧ (Double.ofInt 4).repetitions = 4) ∧
      ((aroundSquare (Maze.game ring ⟨0⟩) (.initial ring)).2 = none ∧
        (aroundSquare (Maze.game ring ⟨0⟩) (.initial ring)).1.state.position = ⟨0, 0⟩ ∧
        (aroundSquare (Maze.game ring ⟨0⟩) (.initial ring)).1.state.facing = .north) ∧
      (aroundSquare (Practice.game (.ofSize 3 3)) (.initial (.ofSize 3 3))).2 = none ∧
        (aroundSquare (Practice.game (.ofSize 3 3)) (.initial (.ofSize 3 3))).1.state.position =
          ⟨0, 0⟩ ∧
        (aroundSquare (Practice.game (.ofSize 3 3)) (.initial (.ofSize 3 3))).1.state.facing =
          .north := by
  have hturns : Op.netTurns sideOfSquare = 1 := by decide +kernel
  have hrounds : (Double.ofInt 4).repetitions = 4 := by decide +kernel
  have hmaze : (aroundSquare (Maze.game ring ⟨0⟩) (.initial ring)).2 = none := by decide +kernel
  have hboard : (aroundSquare (Practice.game (.ofSize 3 3)) (.initial (.ofSize 3 3))).2 = none := by
    decide +kernel
  have hturn : ¬ 4 ∣ Op.netTurns sideOfSquare := by
    rw [hturns]
    decide
  obtain ⟨hinMaze, honBoard⟩ :=
    turning_loops_come_home (.ofInt 4) sideOfSquare "o" hturn ⟨1, hrounds⟩
  unfold aroundSquare at hmaze hboard ⊢
  have hm := hinMaze ring ⟨0⟩ (Timetable.host MazeState) (settingOut (.initial ring)) hmaze
  have hb := honBoard (.ofSize 3 3) (Timetable.host PracticeState)
    (settingOut (.initial (.ofSize 3 3))) hboard
  exact ⟨⟨hturns, hrounds⟩, ⟨hmaze, hm⟩, hboard, hb⟩

end BlockRobot
