import BlockRobot.Proofs.Maze.Safety
import BlockRobot.Proofs.Run.Screen

/-!
# Standing on the goal

A robot that stands on the goal at the end has won, and one that has won stands there; but the
goal is looked at only when a move enters it, and a level may have its start there.  So there
is one more way to stand on the goal, which is to have been there from the beginning and never
to have moved: neither `Level.problem?` nor the reset knows of a win.

* `Approaches` says what an instruction does to the distance.  It brings the robot to the
  goal, and then that is a win; or it leaves the robot elsewhere; or the robot rests, and every
  frame shows it where it was.
* `walk_approaches` is that for a move, by induction on the cells to go.  A move whose rest is
  a rest has still entered one cell, which was not the goal.
* `rests_of_no_win` goes along the instructions: as long as there was no win, the robot is
  off the goal or has rested on the start from the first frame to the last.
* `position_eq_goal_iff` is the statement for whole runs, of any level, any program and any
  host.  In a level with another start than the goal it is the plain equivalence.
-/

namespace BlockRobot

namespace Maze

variable {l : Level} {delay : Duration}

/-! ## One instruction -/

/-- What an instruction does to the distance between the robot and the goal. -/
inductive Approaches (l : Level) (s : MazeState) (r : Response MazeState MazeState) : Prop
  /-- The robot has come to the goal, which is a win. -/
  | reached (won : r.verdict = .ended .win) (position : r.state.position = l.goal)
  /-- The robot has come to another cell. -/
  | away (unwon : r.verdict ≠ .ended .win) (position : r.state.position ≠ l.goal)
  /-- The robot has not moved. -/
  | resting (unwon : r.verdict ≠ .ended .win) (position : r.state.position = s.position)
      (frames : ∀ frame ∈ r.frames, frame.position = s.position)

/-- **A move is a win exactly if it leads to the goal**, unless it leads nowhere. -/
theorem walk_approaches (delay : Duration) (back : Bool) (n : Nat) (s : MazeState) :
    Approaches l s (walk l delay back n s) := by
  induction n generalizing s with
  | zero => exact .resting nofun rfl nofun
  | succ n ih =>
    cases hopen : l.isOpen (s.ahead back) with
    | false =>
      have hframes : (walk l delay back (n + 1) s).frames = _ := frames_walk_collision hopen
      refine .resting ?_ ?_ ?_
      · rw [walk_succ_of_not_isOpen hopen]
        exact nofun
      · rw [walk_succ_of_not_isOpen hopen]
        rfl
      · rw [hframes]
        intro frame hframe
        rw [List.mem_singleton.1 hframe]
        rfl
    | true =>
      by_cases hgoal : s.ahead back = l.goal
      · rw [walk_succ_goal hopen hgoal]
        exact .reached rfl hgoal
      · rw [walk_succ hopen hgoal]
        -- what is left of the move starts on the cell entered, which is not the goal
        cases ih { s with position := s.ahead back } with
        | reached won position => exact .reached won position
        | away unwon position => exact .away unwon position
        | resting unwon position frames => exact .away unwon fun h => hgoal (position.symm.trans h)

/-- An instruction that shows the state it leaves leaves the robot in its place. -/
theorem showing_approaches {s t : MazeState} (ht : t.position = s.position) :
    Approaches l s (Response.showing t .goOn) := by
  refine .resting nofun ht fun frame hframe => ?_
  rw [List.mem_singleton.1 hframe]
  exact ht

theorem apply_approaches (delay : Duration) {op : Op} (hop : op.isLoop = false) (s : MazeState) :
    Approaches l s ((game l delay).apply op s) := by
  cases op with
  | start id => exact showing_approaches rfl
  | move steps id => exact walk_approaches delay _ _ s
  | turn side id => exact showing_approaches rfl
  | wait ms id => exact .resting nofun rfl nofun
  | loop times body id => cases hop

theorem getLast?_frames_walk (back : Bool) (n : Nat) (s : MazeState) :
    (walk l delay back n s).frames.getLast?.getD s = (walk l delay back n s).state := by
  induction n generalizing s with
  | zero => rfl
  | succ n ih =>
    cases hopen : l.isOpen (s.ahead back) with
    | false =>
      rw [frames_walk_collision hopen, walk_succ_of_not_isOpen hopen]
      rfl
    | true =>
      by_cases hgoal : s.ahead back = l.goal
      · rw [frames_walk_goal hopen hgoal, walk_succ_goal hopen hgoal]
        rfl
      · rw [frames_walk_succ hopen hgoal, walk_succ hopen hgoal, List.getLast?_cons,
          Option.getD_some]
        exact ih _

/-- **The maze shows every state it comes to.** -/
theorem showsStates_game (l : Level) (delay : Duration) : (game l delay).ShowsStates := by
  intro op s hop
  cases op with
  | move steps id => exact getLast?_frames_walk _ _ s
  | loop times body id => cases hop
  | _ => rfl

/-! ## Whole runs -/

/-- While nothing was won, the robot is off the goal, or it has rested on the start from the
beginning. -/
theorem rests_of_no_win {ops : List Op} (hplain : ∀ op ∈ ops, op.isLoop = false)
    (hunwon : ∀ earlier op later, ops = earlier ++ op :: later →
      ((game l delay).apply op ((game l delay).after earlier (.initial l))).verdict ≠
        .ended .win) :
    ((game l delay).after ops (.initial l)).position ≠ l.goal ∨
      (((game l delay).after ops (.initial l)).position = l.start ∧
        ∀ frame ∈ (game l delay).framesAlong ops (.initial l), frame.position = l.start) := by
  induction ops using List.reverseRecOn with
  | nil => exact .inr ⟨rfl, nofun⟩
  | append_singleton ops op ih =>
    have hop : op.isLoop = false :=
      hplain op (List.mem_append_right ops (List.mem_singleton_self op))
    have hops : ∀ x ∈ ops, x.isLoop = false :=
      fun x hx => hplain x (List.mem_append_left [op] hx)
    have hbefore := ih hops fun earlier x later hsplit =>
      hunwon earlier x (later ++ [op]) (by rw [hsplit, List.append_assoc, List.cons_append])
    rw [Game.after_concat _ hop, Game.framesAlong_concat _ hops]
    cases apply_approaches (l := l) delay hop ((game l delay).after ops (.initial l)) with
    | reached won position => exact absurd won (hunwon ops op [] rfl)
    | away unwon position => exact .inl position
    | resting unwon position frames =>
      rcases hbefore with hoff | ⟨hstart, hframes⟩
      · exact .inl fun h => hoff (position.symm.trans h)
      · refine .inr ⟨position.trans hstart, fun frame hframe => ?_⟩
        rcases List.mem_append.1 hframe with hframe | hframe
        · exact hframes frame hframe
        · exact (frames frame hframe).trans hstart

/-- A run that is won ends with the robot on the goal. -/
theorem position_eq_goal_of_win {p : Program} {α : Type} {h : Host α MazeState}
    {initial : MazeState} {host : α}
    (hwin : (run (game l delay) h p initial host).ending = .outcome .win) :
    (run (game l delay) h p initial host).state.position = l.goal := by
  obtain ⟨earlier, op, happs, hverdict⟩ :=
    (Run.ending_run_eq_outcome_iff (game l delay) h p initial host .win).1 hwin
  have hop := Run.isLoop_eq_false_of_applications happs
  rw [reset_game] at hverdict
  rw [Run.state_run_eq_after, reset_game, happs, Game.after_concat _ hop]
  cases apply_approaches (l := l) delay hop ((game l delay).after earlier (.initial l)) with
  | reached won position => exact position
  | away unwon position => exact absurd hverdict unwon
  | resting unwon position frames => exact absurd hverdict unwon

/-- At the end of a run that is not won, the robot is off the goal, or every frame of the run
shows it on the start, and there it still is. -/
theorem rests_of_ne_win {p : Program} {α : Type} {h : Host α MazeState} {initial : MazeState}
    {host : α} (hending : (run (game l delay) h p initial host).ending ≠ .outcome .win) :
    (run (game l delay) h p initial host).state.position ≠ l.goal ∨
      ((run (game l delay) h p initial host).state.position = l.start ∧
        ∀ frame ∈ framesShown (run (game l delay) h p initial host).log,
          frame.position = l.start) := by
  have hplain : ∀ op ∈ applications (run (game l delay) h p initial host).log,
      op.isLoop = false := fun _ hop => Run.isLoop_eq_false_of_mem_applications hop
  have hunwon : ∀ earlier op later,
      applications (run (game l delay) h p initial host).log = earlier ++ op :: later →
      ((game l delay).apply op ((game l delay).after earlier (.initial l))).verdict ≠
        .ended .win := fun _ _ _ hsplit => Run.verdict_ne_ended hending hsplit
  rw [Run.state_run_eq_after, reset_game, Run.frames_run]
  refine (rests_of_no_win hplain hunwon).imp_right fun ⟨hposition, hframes⟩ => ⟨hposition, ?_⟩
  intro frame hframe
  rcases List.mem_append.1 hframe with hframe | hframe
  · rw [List.mem_singleton.1 hframe]
    rfl
  · exact hframes frame hframe

/-- **Standing on the goal and winning.**  However a run comes to its end, the robot then stands
on the goal exactly if the run was won, or the level starts on its goal and no frame of the run
shows the robot anywhere else. -/
theorem position_eq_goal_iff (l : Level) (delay : Duration) {α : Type} (h : Host α MazeState)
    (p : Program) (initial : MazeState) (host : α) :
    (run (game l delay) h p initial host).state.position = l.goal ↔
      (run (game l delay) h p initial host).ending = .outcome .win ∨
        (l.start = l.goal ∧ ∀ frame ∈ framesShown (run (game l delay) h p initial host).log,
          frame.position = l.start) := by
  constructor
  · intro hgoal
    by_cases hwin : (run (game l delay) h p initial host).ending = .outcome .win
    · exact .inl hwin
    · rcases rests_of_ne_win hwin with hoff | ⟨hstart, hframes⟩
      · exact absurd hgoal hoff
      · exact .inr ⟨hstart.symm.trans hgoal, hframes⟩
  · rintro (hwin | ⟨hstart, hframes⟩)
    · exact position_eq_goal_of_win hwin
    · -- the last frame shows the state at the end
      have hlast := Run.getLast?_framesShown (showsStates_game l delay) h p initial host rfl
      exact (hframes _ (List.mem_of_getLast? hlast)).trans hstart

/-- A single cell, which is both start and goal. -/
def home : Level := ⟨"home", 1, 1, ⟨0, 0⟩, .north, ⟨0, 0⟩, []⟩

/-- Beginning at home and doing nothing more. -/
def stayedHome : Report MazeState MazeState (Timetable MazeState) :=
  run (game home ⟨0⟩) (Timetable.host MazeState) ⟨[.start "s"]⟩ (.initial home) {}

theorem home_on_goal_unwon :
    home.problem? = none ∧ (⟨[.start "s"]⟩ : Program).Runnable ∧
      ¬ (stayedHome.state.position = home.goal ↔ stayedHome.ending = .outcome .win) := by
  have hgoal : stayedHome.state.position = home.goal := by decide +kernel
  have hdone : stayedHome.ending = .done := by decide +kernel
  refine ⟨by decide, by decide +kernel, fun h => ?_⟩
  have hwin := h.1 hgoal
  rw [hdone] at hwin
  cases hwin

end Maze

end BlockRobot
