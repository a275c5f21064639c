import BlockRobot.Maze
import BlockRobot.Validation
import BlockRobot.Proofs.Grid.Wrapping
import BlockRobot.Proofs.Run.Verdicts

/-!
# The robot in the maze

In a level that can be played the robot never leaves the open cells, whatever the program,
however long the game sleeps before each cell and whenever the host asks for a stop; and the
state at the end says how the run ended (`Maze.run_is_safe`).

* `Maze.Stride` and `Maze.strides` say where the robot stands whenever it computes a
  neighbouring cell, and which cell that is.  A move shows one frame for each of its strides
  (`map_position_frames_walk`), so these are all the cells there are to speak of.
* `walk_sound` is what one move does, by induction on the cells still to go.  It starts on an
  open cell, and so does what is left of it after one stride.
* `apply_sound` is what one instruction does.  An instruction after which the game goes on
  leaves the robot on an open cell, with the message empty and the status idle or running
  (`Ready`).
* `Game.after_keeps` carries `Ready` along a run, and `verdicts_run` adds the last verdict.

That a run that is done has the status running, and not idle, is no matter of the
instructions but of the program: a program that may run begins with a start.
-/

namespace BlockRobot

/-! ## Cells around a level -/

namespace Level

variable {l : Level}

/-- A cell of the level or right beside it. -/
def Around (l : Level) (c : Cell) : Prop :=
  (-1 ≤ c.x ∧ c.x ≤ l.width) ∧ -1 ≤ c.y ∧ c.y ≤ l.height

/-- The neighbours of an open cell lie around the level. -/
theorem around_step {c : Cell} (hc : l.isOpen c = true) (f : Facing) (back : Bool) :
    l.Around (c.step f back) := by
  obtain ⟨hin, -⟩ := (l.isOpen_iff c).1 hc
  obtain ⟨⟨hx, hx'⟩, hy, hy'⟩ := withinSize_iff.1 hin
  obtain ⟨⟨hstep, hstep'⟩, hrise, hrise'⟩ := c.step_bounds f back
  unfold Around
  omega

/-- A level can be played only if its start is open. -/
theorem isOpen_start_of_problem? (hl : l.problem? = none) : l.isOpen l.start = true := by
  unfold problem? at hl
  cases hstart : l.isOpen l.start with
  | true => rfl
  | false =>
    rw [hstart] at hl
    split at hl <;> simp at hl

end Level

/-- The cells around a level have coordinates of 32 bits if the size of the level has. -/
theorem Level.Around.fits {l : Level} {c : Cell} (hc : l.Around c)
    (hwidth : l.width ≤ Double.largestInteger) (hheight : l.height ≤ Double.largestInteger) :
    c.Fits := by
  obtain ⟨⟨hx, hx'⟩, hy, hy'⟩ := hc
  unfold Cell.Fits Double.leastInteger
  omega

namespace Maze

variable {l : Level} {delay : Duration}

/-! ## One move -/

/-- A stride of a move: where the robot stands, and the cell it computes. -/
structure Stride where
  stand : Cell
  target : Cell

/-- The strides of a walk of a number of cells.  Behind a cell that is not open, and behind
the goal, there are none. -/
def strides (l : Level) (back : Bool) : Nat → MazeState → List Stride
  | 0, _ => []
  | n + 1, s =>
    ⟨s.position, s.ahead back⟩ ::
      if l.isOpen (s.ahead back) = true ∧ s.ahead back ≠ l.goal then
        strides l back n { s with position := s.ahead back }
      else []

/-- The strides of an instruction. -/
def stridesOf (l : Level) : Op → MazeState → List Stride
  | .move steps _, s => strides l (steps < 0) steps.natAbs s
  | _, _ => []

theorem strides_last {back : Bool} {n : Nat} {s : MazeState}
    (hlast : l.isOpen (s.ahead back) = false ∨ s.ahead back = l.goal) :
    strides l back (n + 1) s = [⟨s.position, s.ahead back⟩] := by
  rw [strides, if_neg]
  rintro ⟨hopen, hgoal⟩
  rcases hlast with hlast | hlast
  · exact absurd (hlast.symm.trans hopen) Bool.false_ne_true
  · exact hgoal hlast

theorem strides_succ {back : Bool} {n : Nat} {s : MazeState}
    (hopen : l.isOpen (s.ahead back) = true) (hgoal : s.ahead back ≠ l.goal) :
    strides l back (n + 1) s =
      ⟨s.position, s.ahead back⟩ :: strides l back n { s with position := s.ahead back } := by
  rw [strides, if_pos ⟨hopen, hgoal⟩]

/-- Where the robot is after a stride. -/
def Stride.landing (l : Level) (stride : Stride) : Cell :=
  if l.isOpen stride.target = true then stride.target else stride.stand

/-- Sleeping shows nothing. -/
theorem frames_pace (acts : List (Act MazeState)) (s : MazeState) (v : Verdict) :
    (⟨pace delay ++ acts, s, v⟩ : Response MazeState MazeState).frames =
      (⟨acts, s, v⟩ : Response MazeState MazeState).frames := by
  unfold pace
  split <;> rfl

theorem frames_shown (s : MazeState) (acts : List (Act MazeState)) (t : MazeState) (v : Verdict) :
    (⟨.shown s :: acts, t, v⟩ : Response MazeState MazeState).frames =
      s :: (⟨acts, t, v⟩ : Response MazeState MazeState).frames := rfl

theorem frames_walk_collision {back : Bool} {n : Nat} {s : MazeState}
    (h : l.isOpen (s.ahead back) = false) :
    (walk l delay back (n + 1) s).frames = [s.collided l (s.ahead back)] := by
  rw [walk_succ_of_not_isOpen h, frames_pace]
  rfl

theorem frames_walk_goal {back : Bool} {n : Nat} {s : MazeState}
    (h : l.isOpen (s.ahead back) = true) (hg : s.ahead back = l.goal) :
    (walk l delay back (n + 1) s).frames = [s.won (s.ahead back)] := by
  rw [walk_succ_goal h hg, frames_pace]
  rfl

theorem frames_walk_succ {back : Bool} {n : Nat} {s : MazeState}
    (h : l.isOpen (s.ahead back) = true) (hg : s.ahead back ≠ l.goal) :
    (walk l delay back (n + 1) s).frames = { s with position := s.ahead back } ::
      (walk l delay back n { s with position := s.ahead back }).frames := by
  rw [walk_succ h hg]
  show Response.frames ⟨_, _, _⟩ = _
  rw [frames_pace, frames_shown]

/-- **A move shows where each of its strides leads.** -/
theorem map_position_frames_walk (back : Bool) (n : Nat) (s : MazeState) :
    (walk l delay back n s).frames.map MazeState.position =
      (strides l back n s).map (Stride.landing l) := by
  induction n generalizing s with
  | zero => rfl
  | succ n ih =>
    cases hopen : l.isOpen (s.ahead back) with
    | false =>
      rw [frames_walk_collision hopen, strides_last (Or.inl hopen)]
      simp [Stride.landing, hopen, MazeState.collided]
    | true =>
      by_cases hgoal : s.ahead back = l.goal
      · rw [frames_walk_goal hopen hgoal, strides_last (Or.inr hgoal)]
        simp [Stride.landing, hopen, MazeState.won]
      · rw [frames_walk_succ hopen hgoal, strides_succ hopen hgoal, List.map_cons, List.map_cons,
          ih]
        simp [Stride.landing, hopen]

/-- How a state shows that the robot can go on. -/
structure Ready (l : Level) (s : MazeState) : Prop where
  position : l.isOpen s.position = true
  status : s.status = .idle ∨ s.status = .running
  message : s.message = ""

/-- How a state shows a win. -/
structure Won (l : Level) (s : MazeState) : Prop where
  status : s.status = .win
  position : s.position = l.goal
  message : s.message = winMessage

/-- How a state shows a collision in the last of some strides. -/
structure Collided (l : Level) (taken : List Stride) (s : MazeState) : Prop where
  status : s.status = .error
  blocked : ∃ c, taken.getLast? = some ⟨s.position, c⟩ ∧ l.isOpen c = false ∧
    s.message = if l.inBounds c then wallMessage else edgeMessage

/-- A collision is in the last stride, whatever came before it. -/
theorem Collided.cons {first : Stride} {taken : List Stride} {s : MazeState}
    (h : Collided l taken s) : Collided l (first :: taken) s := by
  obtain ⟨c, hlast, hc⟩ := h.blocked
  exact ⟨h.status, c, by rw [List.getLast?_cons, hlast]; rfl, hc⟩

/-- What an instruction can come to, with the state it leaves. -/
inductive Comes (l : Level) (taken : List Stride) (s : MazeState) : MazeState → Verdict → Prop
  | through {t : MazeState} (ready : Ready l t)
      (running : s.status = .running → t.status = .running) : Comes l taken s t .goOn
  | won {t : MazeState} (state : Won l t) : Comes l taken s t (.ended .win)
  | collided {t : MazeState} (state : Collided l taken t) :
      Comes l taken s t (.ended .collision)

/-- What a move comes to from the next cell on, it comes to. -/
theorem Comes.cons {first : Stride} {taken : List Stride} {s t : MazeState} {c : Cell} {v : Verdict}
    (h : Comes l taken { s with position := c } t v) : Comes l (first :: taken) s t v := by
  cases h with
  | through ready running => exact .through ready running
  | won state => exact .won state
  | collided state => exact .collided state.cons

/-- A response in which the robot never leaves the open cells, nor computes a cell that is not
around the level. -/
structure Sound (l : Level) (taken : List Stride) (s : MazeState)
    (r : Response MazeState MazeState) : Prop where
  frames : ∀ frame ∈ r.frames, l.isOpen frame.position = true
  strides : ∀ stride ∈ taken, l.isOpen stride.stand = true ∧ l.Around stride.target
  position : l.isOpen r.state.position = true
  comes : Comes l taken s r.state r.verdict

/-- **A walk is sound.** -/
theorem walk_sound (delay : Duration) (back : Bool) (n : Nat) {s : MazeState} (hs : Ready l s) :
    Sound l (strides l back n s) s (walk l delay back n s) := by
  induction n generalizing s with
  | zero => exact ⟨nofun, nofun, hs.position, .through hs id⟩
  | succ n ih =>
    have hfirst : l.isOpen s.position = true ∧ l.Around (s.ahead back) :=
      ⟨hs.position, Level.around_step hs.position s.facing back⟩
    cases hopen : l.isOpen (s.ahead back) with
    | false =>
      have hframes : (walk l delay back (n + 1) s).frames = _ := frames_walk_collision hopen
      rw [strides_last (Or.inl hopen)]
      refine ⟨?_, by simpa using hfirst, ?_, ?_⟩
      · rw [hframes]
        simpa [MazeState.collided] using hs.position
      · rw [walk_succ_of_not_isOpen hopen]
        exact hs.position
      · rw [walk_succ_of_not_isOpen hopen]
        exact .collided ⟨rfl, s.ahead back, rfl, hopen, rfl⟩
    | true =>
      by_cases hgoal : s.ahead back = l.goal
      · have hframes : (walk l delay back (n + 1) s).frames = _ := frames_walk_goal hopen hgoal
        rw [strides_last (Or.inr hgoal)]
        refine ⟨?_, by simpa using hfirst, ?_, ?_⟩
        · rw [hframes]
          simpa [MazeState.won] using hopen
        · rw [walk_succ_goal hopen hgoal]
          exact hopen
        · rw [walk_succ_goal hopen hgoal]
          exact .won ⟨rfl, hgoal, rfl⟩
      · -- what is left of the move starts where the first stride leads
        have hframes : (walk l delay back (n + 1) s).frames = _ := frames_walk_succ hopen hgoal
        have hrest := ih (s := { s with position := s.ahead back }) ⟨hopen, hs.status, hs.message⟩
        rw [strides_succ hopen hgoal]
        refine ⟨?_, List.forall_mem_cons.2 ⟨hfirst, hrest.strides⟩, ?_, ?_⟩
        · rw [hframes]
          exact List.forall_mem_cons.2 ⟨hopen, hrest.frames⟩
        · rw [walk_succ hopen hgoal]
          exact hrest.position
        · rw [walk_succ hopen hgoal]
          exact hrest.comes.cons

/-! ## One instruction -/

/-- A response that shows the state it leaves and goes on is sound if the robot can go on. -/
theorem showing_sound {s t : MazeState} (ht : Ready l t)
    (hrunning : s.status = .running → t.status = .running) :
    Sound l [] s (Response.showing t .goOn) := by
  refine ⟨fun frame hframe => ?_, nofun, ht.position, .through ht hrunning⟩
  rw [List.mem_singleton.1 hframe]
  exact ht.position

@[simp] theorem reset_game (l : Level) (delay : Duration) (s : MazeState) :
    (game l delay).reset s = ([.initial l], .initial l) := rfl

/-- **Every instruction is sound**, if it is no loop. -/
theorem apply_sound (delay : Duration) {op : Op} (hop : op.isLoop = false) {s : MazeState}
    (hs : Ready l s) : Sound l (stridesOf l op s) s ((game l delay).apply op s) := by
  cases op with
  | start id => exact showing_sound ⟨hs.position, Or.inr rfl, rfl⟩ fun _ => rfl
  | move steps id => exact walk_sound delay _ _ hs
  | turn side id => exact showing_sound ⟨hs.position, hs.status, hs.message⟩ fun hrunning => hrunning
  | wait ms id => exact ⟨nofun, nofun, hs.position, .through hs fun hrunning => hrunning⟩
  | loop times body id => cases hop

/-- The robot can go on after an instruction after which the game does, and the status stays
running. -/
theorem Sound.ready {taken : List Stride} {s : MazeState} {r : Response MazeState MazeState}
    (h : Sound l taken s r) (hv : r.verdict = .goOn) :
    Ready l r.state ∧ (s.status = .running → r.state.status = .running) := by
  have hcomes := h.comes
  rw [hv] at hcomes
  cases hcomes with
  | through ready running => exact ⟨ready, running⟩

theorem ready_keptBy (l : Level) (delay : Duration) : (game l delay).KeptBy (Ready l) :=
  fun _ _ hop hs hv => ((apply_sound delay hop hs).ready hv).1

theorem running_keptBy (l : Level) (delay : Duration) :
    (game l delay).KeptBy fun s => Ready l s ∧ s.status = .running := by
  intro op s hop hs hv
  obtain ⟨hready, hrunning⟩ := (apply_sound delay hop hs.1).ready hv
  exact ⟨hready, hrunning hs.2⟩

/-! ## Whole runs -/

theorem ready_initial (hl : l.problem? = none) : Ready l (.initial l) :=
  ⟨Level.isOpen_start_of_problem? hl, Or.inl rfl, rfl⟩

/-- The robot can go on after instructions through which the game has gone. -/
theorem ready_after (hl : l.problem? = none) {ops : List Op}
    (hops : (game l delay).GoesThrough ops (.initial l)) :
    Ready l ((game l delay).after ops (.initial l)) :=
  Game.after_keeps (ready_keptBy l delay) hops (ready_initial hl)

/-- Whatever has been applied was sound. -/
theorem sound_of_applications (hl : l.problem? = none) {α : Type} {h : Host α MazeState}
    {p : Program} {initial : MazeState} {host : α} {earlier : List Op} {op : Op} {later : List Op}
    (hsplit : applications (run (game l delay) h p initial host).log = earlier ++ op :: later) :
    Ready l ((game l delay).after earlier (.initial l)) ∧
      Sound l (stridesOf l op ((game l delay).after earlier (.initial l)))
        ((game l delay).after earlier (.initial l))
        ((game l delay).apply op ((game l delay).after earlier (.initial l))) := by
  have hop := Run.isLoop_eq_false_of_applications hsplit
  have hready := ready_after hl (Run.goesThrough_of_applications hsplit)
  exact ⟨hready, apply_sound delay hop hready⟩

/-- A run that is done has applied the start of its program, and no instruction behind it has
taken the status away from running. -/
theorem running_of_done (hl : l.problem? = none) {p : Program} (hp : p.Runnable)
    (delay : Duration) {α : Type} (h : Host α MazeState) (initial : MazeState) (host : α)
    (hdone : (run (game l delay) h p initial host).ending = .done) :
    (run (game l delay) h p initial host).state.status = .running := by
  obtain ⟨hthrough, hstate⟩ := Run.goesThrough_of_done hdone
  obtain ⟨hbegins, -⟩ := p.runnable_iff.1 hp
  obtain ⟨id, ops, hops⟩ := p.beginsWithStart_iff.1 hbegins
  have hunrolled : Op.unrolledAll p.ops = .start id :: Op.unrolledAll ops := by rw [hops]; rfl
  have hstarted : Ready l ((game l delay).take (.start id) (.initial l)).state :=
    ⟨Level.isOpen_start_of_problem? hl, Or.inr rfl, rfl⟩
  rw [hunrolled, reset_game] at hthrough hstate
  rw [hstate, Game.after_cons]
  exact (Game.after_keeps (running_keptBy l delay) hthrough.tail ⟨hstarted, rfl⟩).2

/-- What the state at the end says of how a run ended. -/
structure Concluded {α : Type} (l : Level) (delay : Duration) (r : Report MazeState MazeState α) :
    Prop where
  not_failed : ∀ message, r.ending ≠ .failed message
  not_crashed : r.ending ≠ .crashed
  done : r.ending = .done → r.state.status = .running ∧ r.state.message = ""
  stopped : r.ending = .stopped →
    (r.state.status = .idle ∨ r.state.status = .running) ∧ r.state.message = ""
  win : r.ending = .outcome .win → Won l r.state
  collision : r.ending = .outcome .collision → ∃ earlier op, applications r.log = earlier ++ [op] ∧
    Collided l (stridesOf l op ((game l delay).after earlier (.initial l))) r.state

/-- The last instruction decides how a run ended if the game did not go on after it. -/
theorem concluded_of_comes {α : Type} {r : Report MazeState MazeState α} {earlier : List Op}
    {op : Op} (happs : applications r.log = earlier ++ [op]) {v : Verdict}
    (hcomes : Comes l (stridesOf l op ((game l delay).after earlier (.initial l)))
      ((game l delay).after earlier (.initial l)) r.state v)
    (hne : v ≠ .goOn) (hend : r.ending = v.ending) : Concluded l delay r := by
  cases hcomes with
  | through ready running => exact absurd rfl hne
  | won state =>
    have hwin : r.ending = .outcome .win := hend
    constructor
    case win => exact fun _ => state
    all_goals rw [hwin]; exact nofun
  | collided state =>
    have hcollision : r.ending = .outcome .collision := hend
    constructor
    case collision => exact fun _ => ⟨earlier, op, happs, state⟩
    all_goals rw [hcollision]; exact nofun

/-- **The state at the end** has the robot on an open cell and says how the run ended. -/
theorem concluded_run (hl : l.problem? = none) {p : Program} (hp : p.Runnable) (delay : Duration)
    {α : Type} (h : Host α MazeState) (initial : MazeState) (host : α) :
    l.isOpen (run (game l delay) h p initial host).state.position = true ∧
      Concluded l delay (run (game l delay) h p initial host) := by
  have hstate := Run.state_run_eq_after (game l delay) h p initial host
  have hverdicts := Run.verdicts_run (game l delay) h p initial host
  rw [reset_game] at hstate hverdicts
  rcases hverdicts with ⟨hthrough, hend⟩ | ⟨earlier, op, happs, -, hne, hend⟩
  · have hready := ready_after hl hthrough
    rw [← hstate] at hready
    refine ⟨hready.position, ?_⟩
    constructor
    case done =>
      exact fun hdone => ⟨running_of_done hl hp delay h initial host hdone, hready.message⟩
    case stopped => exact fun _ => ⟨hready.status, hready.message⟩
    all_goals rcases hend with hend | hend <;> rw [hend] <;> exact nofun
  · have hop := Run.isLoop_eq_false_of_applications happs
    obtain ⟨-, -, -, hposition, hcomes⟩ := sound_of_applications hl happs
    rw [happs, Game.after_concat _ hop] at hstate
    rw [← hstate] at hposition hcomes
    exact ⟨hposition, concluded_of_comes happs hcomes hne hend⟩

/-- **The maze is safe.**  In a level that can be played and for a program that may run,
whatever the host does:

* every frame on record has the robot on an open cell;
* before each instruction the robot is on an open cell, and so it is in each stride of a move,
  and the cells computed lie around the level, so their coordinates are integers of 32 bits if
  the size of the level has such;
* at the end the robot is on an open cell;
* the state at the end says how the run ended, which is never as failed. -/
theorem run_is_safe {l : Level} (hl : l.problem? = none) {p : Program} (hp : p.Runnable)
    (delay : Duration) {α : Type} (h : Host α MazeState) (initial : MazeState) (host : α) :
    (∀ frame ∈ framesShown (run (game l delay) h p initial host).log,
      l.isOpen frame.position = true) ∧
    (∀ earlier op later,
      applications (run (game l delay) h p initial host).log = earlier ++ op :: later →
      l.isOpen ((game l delay).after earlier (.initial l)).position = true ∧
      ∀ stride ∈ stridesOf l op ((game l delay).after earlier (.initial l)),
        l.isOpen stride.stand = true ∧ l.Around stride.target ∧
        (l.width ≤ Double.largestInteger → l.height ≤ Double.largestInteger →
          stride.target.Fits)) ∧
    l.isOpen (run (game l delay) h p initial host).state.position = true ∧
    Concluded l delay (run (game l delay) h p initial host) := by
  refine ⟨fun frame hframe => ?_, fun earlier op later hsplit => ?_,
    concluded_run hl hp delay h initial host⟩
  · rw [Run.frames_run, List.mem_append] at hframe
    rcases hframe with hframe | hframe
    · rw [List.mem_singleton.1 hframe]
      exact Level.isOpen_start_of_problem? hl
    · obtain ⟨earlier, op, later, hsplit, hframe⟩ := Game.exists_of_mem_framesAlong
        (fun op hop => Run.isLoop_eq_false_of_mem_applications hop) hframe
      exact (sound_of_applications hl hsplit).2.frames frame hframe
  · obtain ⟨hready, hsound⟩ := sound_of_applications hl hsplit
    refine ⟨hready.position, fun stride hstride => ?_⟩
    obtain ⟨hstand, htarget⟩ := hsound.strides stride hstride
    exact ⟨hstand, htarget, htarget.fits⟩

/-- A corridor of three cells, of which the robot starts in the middle. -/
def corridor : Level := ⟨"corridor", 3, 1, ⟨1, 0⟩, .east, ⟨2, 0⟩, [⟨0, 0⟩]⟩

/-- A robot that backs into the wall of the corridor, after a turn there and back. -/
def backingUp : Program :=
  ⟨[.start "s", .loop (.ofInt 2) [.turn .left "l", .turn .right "r"] "o", .move (-2) "m"]⟩

/-- How that goes while the host waits for nothing. -/
def backedUp : Report MazeState MazeState (Timetable MazeState) :=
  run (game corridor ⟨0⟩) (Timetable.host MazeState) backingUp (.initial corridor) {}

theorem backedUp_is_safe :
    corridor.problem? = none ∧ backingUp.Runnable ∧ backedUp.ending = .outcome .collision ∧
      (∀ frame ∈ framesShown backedUp.log, corridor.isOpen frame.position = true) ∧
      (∀ earlier op later, applications backedUp.log = earlier ++ op :: later →
        corridor.isOpen ((game corridor ⟨0⟩).after earlier (.initial corridor)).position = true ∧
        ∀ stride ∈ stridesOf corridor op ((game corridor ⟨0⟩).after earlier (.initial corridor)),
          corridor.isOpen stride.stand = true ∧ corridor.Around stride.target ∧
          (corridor.width ≤ Double.largestInteger → corridor.height ≤ Double.largestInteger →
            stride.target.Fits)) ∧
      corridor.isOpen backedUp.state.position = true ∧
      Concluded corridor ⟨0⟩ backedUp := by
  have hlevel : corridor.problem? = none := by decide
  have hprogram : backingUp.Runnable := by decide +kernel
  have hending : backedUp.ending = .outcome .collision := by decide +kernel
  refine ⟨hlevel, hprogram, hending, ?_⟩
  unfold backedUp
  exact run_is_safe hlevel hprogram ⟨0⟩ (Timetable.host MazeState) (.initial corridor) {}

end Maze

end BlockRobot
