import BlockRobot.Proofs.Games.Moves

/-!
# Undoing a move

A move can be undone by as many steps the other way.  This is not because moves had inverses: the way
back is walked like any other, each cell of it is looked at again from the other side, and the goal
or the edge would end it.  It goes all the way because it leads over the cells of the way out, which
have all been entered, and to the cell the robot stood on (`Cell.eq_or_mem_way_of_mem_way_back`).  So
nothing has to be known of a level but that this one cell does not decide a move, and nothing of a
board but that this cell is on it.

The maze keeps no account of its moves, and undoing one leaves no trace.  A board does, and there the
way out and the way back are both added to the trail (`Cell.way_back`).
-/

namespace BlockRobot

/-- Steps the other way go the other way, if there are any. -/
theorem natAbs_eq_zero_or_neg_lt_zero (n : Int) :
    n.natAbs = 0 ∨ decide (-n < 0) = !decide (n < 0) := by
  rcases Int.lt_trichotomy n 0 with hn | rfl | hn
  · rw [decide_eq_true hn, decide_eq_false (show ¬ -n < 0 by omega)]
    exact .inr rfl
  · exact .inl rfl
  · rw [decide_eq_true (show -n < 0 by omega), decide_eq_false hn.le.not_gt]
    exact .inr rfl

/-! ## The maze -/

namespace Maze

variable {l : Level} {delay : Duration} {back : Bool}

/-- **The way back in the maze** ends in the state in which the way out began. -/
theorem walk_back_of_goOn {n : Nat} {s : MazeState} (hstart : ¬ l.Decides s.position)
    (hs : (walk l delay back n s).verdict = .goOn) :
    (walk l delay (!back) n (walk l delay back n s).state).verdict = .goOn ∧
      (walk l delay (!back) n (walk l delay back n s).state).state = s := by
  have hclear := (verdict_walk_eq_goOn_iff delay).1 hs
  rw [state_walk_of_goOn hs]
  have hback : (walk l delay (!back) n
      { s with position := s.position.steps s.facing back n }).verdict = .goOn := by
    refine (verdict_walk_eq_goOn_iff delay).2 fun c hc => ?_
    rcases Cell.eq_or_mem_way_of_mem_way_back hc with rfl | hc
    · exact hstart
    · exact hclear c hc
  refine ⟨hback, ?_⟩
  rw [state_walk_of_goOn hback]
  show { s with position := (s.position.steps s.facing back n).steps s.facing (!back) n } = s
  rw [Cell.steps_back _ _ _ le_rfl, Nat.sub_self, Cell.steps_zero]

end Maze

/-! ## Practice boards -/

namespace Practice

variable {b : Board} {back : Bool}

/-- **The way back on a board** ends where the way out began, and both are on the trail. -/
theorem walk_back_of_goOn {n : Nat} {s : PracticeState} (hstart : b.inBounds s.position = true)
    (hmoves : s.moves ≤ PracticeState.largestMoves) (hs : (walk b back n s).2 = .goOn) :
    (walk b (!back) n (walk b back n s).1).2 = .goOn ∧
      (walk b (!back) n (walk b back n s).1).1 =
        { s with
          trail := s.trail ++ s.position.way s.facing back n ++
            (List.range n).reverse.map (s.position.steps s.facing back)
          moves := min (s.moves + 2 * n) PracticeState.largestMoves } := by
  have hin := verdict_walk_eq_goOn_iff.1 hs
  rw [state_walk_of_goOn hs hmoves]
  set t : PracticeState :=
    { s with
      position := s.position.steps s.facing back n
      trail := s.trail ++ s.position.way s.facing back n
      moves := min (s.moves + n) PracticeState.largestMoves } with ht
  have hback : (walk b (!back) n t).2 = .goOn := by
    refine verdict_walk_eq_goOn_iff.2 fun c hc => ?_
    rcases Cell.eq_or_mem_way_of_mem_way_back hc with rfl | hc
    · exact hstart
    · exact hin c hc
  refine ⟨hback, ?_⟩
  rw [state_walk_of_goOn hback (Nat.min_le_right _ _), ht, PracticeState.mk.injEq, Cell.way_back,
    Cell.steps_back _ _ _ le_rfl, Nat.sub_self, Cell.steps_zero]
  refine ⟨rfl, rfl, rfl, ?_, rfl, rfl⟩
  show min (min (s.moves + n) PracticeState.largestMoves + n) PracticeState.largestMoves = _
  omega

end Practice

/-! ## Both games -/

/-- **Moves can be undone.**

* In a maze, let the robot stand on an open cell that is not the goal, and let the game go on after a
  move.  Then it goes on after the same number of steps the other way, and is back in the state it was
  in.
* On a board, let the robot stand on it, and let the game go on after a move.  Then it goes on after
  the same number of steps the other way, and is back in the state it was in but for two things.  The
  number of moves has grown by the steps of both moves, as far as they are counted.  The trail has
  grown by the cells of the way out, of which `cell k` is the one after `k` steps, and by the same
  cells in reverse, from the last but one to the cell the robot stood on. -/
theorem moves_can_be_undone (n : Int) (id id' : String) :
    (∀ (l : Level) (delay : Duration) (s : MazeState),
      l.isOpen s.position = true → s.position ≠ l.goal →
      ((Maze.game l delay).apply (.move n id) s).verdict = .goOn →
        ((Maze.game l delay).apply (.move (-n) id')
          ((Maze.game l delay).apply (.move n id) s).state).verdict = .goOn ∧
        ((Maze.game l delay).apply (.move (-n) id')
          ((Maze.game l delay).apply (.move n id) s).state).state = s) ∧
    ∀ (b : Board) (s : PracticeState),
      b.inBounds s.position = true → s.moves ≤ PracticeState.largestMoves →
      ((Practice.game b).apply (.move n id) s).verdict = .goOn →
        let cell := s.position.steps s.facing (n < 0)
        ((Practice.game b).apply (.move (-n) id')
          ((Practice.game b).apply (.move n id) s).state).verdict = .goOn ∧
        ((Practice.game b).apply (.move (-n) id')
          ((Practice.game b).apply (.move n id) s).state).state =
            { s with
              trail := s.trail ++ (List.range n.natAbs).map (fun k => cell (k + 1)) ++
                (List.range n.natAbs).reverse.map cell
              moves := min (s.moves + 2 * n.natAbs) PracticeState.largestMoves } := by
  have hother := natAbs_eq_zero_or_neg_lt_zero n
  constructor
  · intro l delay s hopen hgoal hs
    show (Maze.walk l delay (-n < 0) (-n).natAbs (Maze.walk l delay (n < 0) n.natAbs s).state).verdict
        = .goOn ∧
      (Maze.walk l delay (-n < 0) (-n).natAbs (Maze.walk l delay (n < 0) n.natAbs s).state).state = s
    rw [Int.natAbs_neg, Maze.walk_congr_back hother]
    exact Maze.walk_back_of_goOn (Level.not_decides_iff.2 ⟨hopen, hgoal⟩) hs
  · intro b s hin hmoves hs
    show (Practice.walk b (-n < 0) (-n).natAbs (Practice.walk b (n < 0) n.natAbs s).1).2 = .goOn ∧
      (Practice.walk b (-n < 0) (-n).natAbs (Practice.walk b (n < 0) n.natAbs s).1).1 = _
    rw [Int.natAbs_neg, Practice.walk_congr_back hother]
    exact Practice.walk_back_of_goOn hin hmoves hs

/-- A robot on a board of one row that has all but used up the count of its moves. -/
def wearyWalker : PracticeState :=
  ⟨⟨3, 0⟩, .east, [⟨3, 0⟩], PracticeState.largestMoves - 3, .running, ""⟩

theorem backAndForth_is_undone :
    (Maze.hall.isOpen Maze.lookingAway.position = true ∧
      Maze.lookingAway.position ≠ Maze.hall.goal ∧
      ((Maze.game Maze.hall ⟨0⟩).apply (.move (-2) "m") Maze.lookingAway).verdict = .goOn ∧
      ((Maze.game Maze.hall ⟨0⟩).apply (.move 2 "u")
        ((Maze.game Maze.hall ⟨0⟩).apply (.move (-2) "m") Maze.lookingAway).state).state =
          Maze.lookingAway) ∧
    (Board.ofSize 4 1).inBounds wearyWalker.position = true ∧
      ((Practice.game (.ofSize 4 1)).apply (.move (-2) "m") wearyWalker).verdict = .goOn ∧
      ((Practice.game (.ofSize 4 1)).apply (.move 2 "u")
        ((Practice.game (.ofSize 4 1)).apply (.move (-2) "m") wearyWalker).state).state =
          ⟨⟨3, 0⟩, .east, [⟨3, 0⟩, ⟨2, 0⟩, ⟨1, 0⟩, ⟨2, 0⟩, ⟨3, 0⟩], PracticeState.largestMoves,
            .running, ""⟩ := by
  have hopen : Maze.hall.isOpen Maze.lookingAway.position = true := by decide
  have hgoal : Maze.lookingAway.position ≠ Maze.hall.goal := by decide
  have hout : ((Maze.game Maze.hall ⟨0⟩).apply (.move (-2) "m") Maze.lookingAway).verdict = .goOn := by
    decide +kernel
  have hin : (Board.ofSize 4 1).inBounds wearyWalker.position = true := by decide
  have hoff : ((Practice.game (.ofSize 4 1)).apply (.move (-2) "m") wearyWalker).verdict = .goOn := by
    decide +kernel
  obtain ⟨hmaze, hboard⟩ := moves_can_be_undone (-2) "m" "u"
  obtain ⟨-, hback⟩ := hmaze Maze.hall ⟨0⟩ Maze.lookingAway hopen hgoal hout
  obtain ⟨-, hreturned⟩ := hboard (.ofSize 4 1) wearyWalker hin (by decide) hoff
  refine ⟨⟨hopen, hgoal, hout, hback⟩, hin, hoff, hreturned.trans ?_⟩
  decide +kernel

end BlockRobot
