import BlockRobot.Proofs.Games.Steering
import BlockRobot.Proofs.Grid.Ways
import BlockRobot.Proofs.Maze.Safety
import Mathlib.Order.Bounds.Defs

/-!
# Moves in closed form

A move is walked cell by cell, and what it comes to is known only when the walk is over.  Here it is
read off the way in front of the robot, whatever the state it begins in.

* In the maze a cell *decides* a move if it is not open or if it is the goal (`Level.Decides`).  A move
  ends at the first cell on its way that does, and goes all the way if none does
  (`Maze.move_ends_at_first_deciding_cell`).
* On a board the cells beside it take this part (`Practice.verdict_walk_eq_goOn_iff`), and a move that
  goes all the way adds its way to the trail (`Practice.state_walk_of_goOn`).

Both walks are loops with a way out, and all that is needed of the loops is how they come apart.  A
walk of `m + n` cells is one of `m` cells and then, unless that has ended, one of `n` cells from the
state it left (`walk_add_of_goOn`, `walk_add_of_ne_goOn`).  So the walk up to the first deciding cell
can be taken off in front, and what is left decides itself in one step.
-/

namespace BlockRobot

/-! ## The maze -/

namespace Level

/-- A cell decides a move that comes to it: it cannot be entered, or it is the goal. -/
def Decides (l : Level) (c : Cell) : Prop := l.isOpen c = false ∨ c = l.goal

theorem not_decides_iff {l : Level} {c : Cell} :
    ¬ l.Decides c ↔ l.isOpen c = true ∧ c ≠ l.goal := by
  rw [Decides, not_or, Bool.not_eq_false]

end Level

/-- The states a robot goes through while it enters a number of cells, one for each of them. -/
def MazeState.entering (s : MazeState) (back : Bool) (n : Nat) : List MazeState :=
  (s.position.way s.facing back n).map fun c => { s with position := c }

namespace Maze

variable {l : Level} {delay : Duration} {back : Bool}

/-- Which way a walk goes is no matter if it has no cells. -/
theorem walk_congr_back {back' : Bool} {n : Nat} (h : n = 0 ∨ back = back') (s : MazeState) :
    walk l delay back n s = walk l delay back' n s := by
  rcases h with rfl | rfl <;> rfl

/-- **A walk and another behind it** are one walk, if the game goes on after the first. -/
theorem walk_add_of_goOn {m : Nat} (n : Nat) {s : MazeState}
    (hm : (walk l delay back m s).verdict = .goOn) :
    walk l delay back (m + n) s =
      ⟨(walk l delay back m s).acts ++ (walk l delay back n (walk l delay back m s).state).acts,
        (walk l delay back n (walk l delay back m s).state).state,
        (walk l delay back n (walk l delay back m s).state).verdict⟩ := by
  induction m generalizing s with
  | zero =>
    rw [Nat.zero_add]
    rfl
  | succ m ih =>
    rw [Nat.succ_add]
    cases hopen : l.isOpen (s.ahead back) with
    | false =>
      rw [walk_succ_of_not_isOpen hopen] at hm
      cases hm
    | true =>
      by_cases hgoal : s.ahead back = l.goal
      · rw [walk_succ_goal hopen hgoal] at hm
        cases hm
      · rw [walk_succ hopen hgoal] at hm
        rw [walk_succ hopen hgoal, walk_succ hopen hgoal, ih hm, Response.mk.injEq]
        exact ⟨by simp only [List.append_assoc, List.cons_append], rfl, rfl⟩

/-- More cells make no difference to a walk after which the game does not go on. -/
theorem walk_add_of_ne_goOn {m : Nat} (n : Nat) {s : MazeState}
    (hm : (walk l delay back m s).verdict ≠ .goOn) :
    walk l delay back (m + n) s = walk l delay back m s := by
  induction m generalizing s with
  | zero => exact absurd rfl hm
  | succ m ih =>
    rw [Nat.succ_add]
    cases hopen : l.isOpen (s.ahead back) with
    | false => rw [walk_succ_of_not_isOpen hopen, walk_succ_of_not_isOpen hopen]
    | true =>
      by_cases hgoal : s.ahead back = l.goal
      · rw [walk_succ_goal hopen hgoal, walk_succ_goal hopen hgoal]
      · rw [walk_succ hopen hgoal] at hm
        rw [walk_succ hopen hgoal, walk_succ hopen hgoal, ih hm]

/-- The frames of a walk and another behind it. -/
theorem frames_walk_add_of_goOn {m : Nat} (n : Nat) {s : MazeState}
    (hm : (walk l delay back m s).verdict = .goOn) :
    (walk l delay back (m + n) s).frames =
      (walk l delay back m s).frames ++ (walk l delay back n (walk l delay back m s).state).frames := by
  rw [walk_add_of_goOn n hm]
  exact List.filterMap_append ..

/-- **The game goes on after a walk exactly if no cell on the way decides it.** -/
theorem verdict_walk_eq_goOn_iff (delay : Duration) {n : Nat} {s : MazeState} :
    (walk l delay back n s).verdict = .goOn ↔
      ∀ c ∈ s.position.way s.facing back n, ¬ l.Decides c := by
  induction n generalizing s with
  | zero => exact iff_of_true rfl nofun
  | succ n ih =>
    rw [Cell.way_succ, List.forall_mem_cons, Level.not_decides_iff]
    cases hopen : l.isOpen (s.ahead back) with
    | false =>
      rw [walk_succ_of_not_isOpen hopen]
      exact iff_of_false nofun fun h => absurd (hopen.symm.trans h.1.1) Bool.false_ne_true
    | true =>
      by_cases hgoal : s.ahead back = l.goal
      · rw [walk_succ_goal hopen hgoal]
        exact iff_of_false nofun fun h => h.1.2 hgoal
      · rw [walk_succ hopen hgoal]
        exact ih.trans (and_iff_right ⟨hopen, hgoal⟩).symm

/-- A walk after which the game goes on shows the robot in each cell of its way. -/
theorem frames_walk_of_goOn {n : Nat} {s : MazeState}
    (hs : (walk l delay back n s).verdict = .goOn) :
    (walk l delay back n s).frames = s.entering back n := by
  induction n generalizing s with
  | zero => rfl
  | succ n ih =>
    obtain ⟨hfirst, -⟩ := List.forall_mem_cons.1
      (Cell.way_succ s.position s.facing back n ▸ (verdict_walk_eq_goOn_iff delay).1 hs)
    obtain ⟨hopen, hgoal⟩ := Level.not_decides_iff.1 hfirst
    have hrest : (walk l delay back n { s with position := s.ahead back }).verdict = .goOn := by
      rw [← hs, walk_succ hopen hgoal]
    rw [frames_walk_succ hopen hgoal, ih hrest, MazeState.entering, MazeState.entering,
      Cell.way_succ, List.map_cons]
    rfl

/-! ### Where a move ends -/

/-- A walk that comes to a cell that is not open ends in front of it. -/
theorem walk_of_closed {j : Nat} (m : Nat) {s : MazeState}
    (hclear : ∀ c ∈ s.position.way s.facing back j, ¬ l.Decides c)
    (hclosed : l.isOpen (s.position.steps s.facing back (j + 1)) = false) :
    (walk l delay back (j + (m + 1)) s).verdict = .ended .collision ∧
      (walk l delay back (j + (m + 1)) s).state =
        ({ s with position := s.position.steps s.facing back j }).collided l
          (s.position.steps s.facing back (j + 1)) ∧
      (walk l delay back (j + (m + 1)) s).frames =
        s.entering back j ++ [(walk l delay back (j + (m + 1)) s).state] := by
  have hgo := (verdict_walk_eq_goOn_iff delay).2 hclear
  have hahead : ({ s with position := s.position.steps s.facing back j }).ahead back =
      s.position.steps s.facing back (j + 1) := (Cell.steps_succ_last ..).symm
  rw [← hahead] at hclosed ⊢
  rw [frames_walk_add_of_goOn _ hgo, walk_add_of_goOn _ hgo, state_walk_of_goOn hgo,
    frames_walk_collision hclosed, walk_succ_of_not_isOpen hclosed, frames_walk_of_goOn hgo]
  exact ⟨rfl, rfl, rfl⟩

/-- A walk that comes to the goal ends on it. -/
theorem walk_of_goal {j : Nat} (m : Nat) {s : MazeState}
    (hclear : ∀ c ∈ s.position.way s.facing back j, ¬ l.Decides c)
    (hopen : l.isOpen (s.position.steps s.facing back (j + 1)) = true)
    (hgoal : s.position.steps s.facing back (j + 1) = l.goal) :
    (walk l delay back (j + (m + 1)) s).verdict = .ended .win ∧
      (walk l delay back (j + (m + 1)) s).state =
        s.won (s.position.steps s.facing back (j + 1)) ∧
      (walk l delay back (j + (m + 1)) s).frames =
        s.entering back j ++ [(walk l delay back (j + (m + 1)) s).state] := by
  have hgo := (verdict_walk_eq_goOn_iff delay).2 hclear
  have hahead : ({ s with position := s.position.steps s.facing back j }).ahead back =
      s.position.steps s.facing back (j + 1) := (Cell.steps_succ_last ..).symm
  rw [← hahead] at hopen hgoal ⊢
  rw [frames_walk_add_of_goOn _ hgo, walk_add_of_goOn _ hgo, state_walk_of_goOn hgo,
    frames_walk_goal hopen hgoal, walk_succ_goal hopen hgoal, frames_walk_of_goOn hgo]
  exact ⟨rfl, rfl, rfl⟩

/-- Walking is no matter of the level's name, and does not turn the robot. -/
theorem state_walk_keeps (n : Nat) (s : MazeState) :
    (walk l delay back n s).state.facing = s.facing ∧
      (walk l delay back n s).state.levelId = s.levelId := by
  induction n generalizing s with
  | zero => exact ⟨rfl, rfl⟩
  | succ n ih =>
    cases hopen : l.isOpen (s.ahead back) with
    | false =>
      rw [walk_succ_of_not_isOpen hopen]
      exact ⟨rfl, rfl⟩
    | true =>
      by_cases hgoal : s.ahead back = l.goal
      · rw [walk_succ_goal hopen hgoal]
        exact ⟨rfl, rfl⟩
      · rw [walk_succ hopen hgoal]
        exact ih _

/-- **A move ends at the first cell that decides it.**  Let `cell k` be the cell `k` steps ahead of
the robot, or behind it if the move goes back.

* If none of the cells of the move decides it, then the game goes on, the robot stands on the last of
  them, nothing else has changed, and one frame was shown for each.
* Otherwise let `k` be the first that does.  If it is not open, that is a collision, and the robot
  stands in front of it, with the message for a wall or for the edge; one frame was shown for each
  cell entered, and one for the collision.  If it is open, it is the goal, and the move is won with
  the robot on it, which the last of the frames shows.

Neither the facing nor the name of the level ever changes. -/
theorem move_ends_at_first_deciding_cell (l : Level) (delay : Duration) (n : Int) (id : String)
    (s : MazeState) :
    let cell := s.position.steps s.facing (n < 0)
    let r := (game l delay).apply (.move n id) s
    ((∀ k, 1 ≤ k → k ≤ n.natAbs → ¬ l.Decides (cell k)) →
      r.verdict = .goOn ∧ r.state = { s with position := cell n.natAbs } ∧
        r.frames = s.entering (n < 0) n.natAbs) ∧
    (∀ k, IsLeast {k | 1 ≤ k ∧ k ≤ n.natAbs ∧ l.Decides (cell k)} k →
      (l.isOpen (cell k) = false →
        r.verdict = .ended .collision ∧
        r.state = { s with
          position := cell (k - 1)
          status := .error
          message := if l.inBounds (cell k) then wallMessage else edgeMessage } ∧
        r.frames = s.entering (n < 0) (k - 1) ++ [r.state]) ∧
      (l.isOpen (cell k) = true →
        cell k = l.goal ∧ r.verdict = .ended .win ∧
        r.state = { s with position := cell k, status := .win, message := winMessage } ∧
        r.frames = s.entering (n < 0) (k - 1) ++ [r.state])) ∧
    r.state.facing = s.facing ∧ r.state.levelId = s.levelId := by
  intro cell r
  refine ⟨fun hclear => ?_, fun k hk => ?_, state_walk_keeps n.natAbs s⟩
  · have hgo : r.verdict = .goOn := by
      refine (verdict_walk_eq_goOn_iff delay).2 fun c hc => ?_
      obtain ⟨k, hpos, hk, rfl⟩ := Cell.mem_way_iff.1 hc
      exact hclear k hpos hk
    exact ⟨hgo, state_walk_of_goOn hgo, frames_walk_of_goOn hgo⟩
  · obtain ⟨⟨hpos, hle, hdecides⟩, hleast⟩ := hk
    obtain ⟨j, rfl⟩ := Nat.exists_eq_add_of_le' hpos
    have hclear : ∀ c ∈ s.position.way s.facing (n < 0) j, ¬ l.Decides c := by
      intro c hc hdecides
      obtain ⟨i, hi, hij, rfl⟩ := Cell.mem_way_iff.1 hc
      exact absurd (hleast ⟨hi, hij.trans (Nat.le_of_succ_le hle), hdecides⟩) (by omega)
    -- what is left of the move behind the first `j` cells begins with the deciding one
    obtain ⟨m, hm⟩ := Nat.exists_eq_add_of_le hle
    have hr : r = walk l delay (n < 0) (j + (m + 1)) s := by
      show walk l delay (n < 0) n.natAbs s = _
      rw [hm, Nat.add_assoc, Nat.add_comm 1 m]
    rw [hr, Nat.add_sub_cancel]
    constructor
    · exact fun hclosed => walk_of_closed m hclear hclosed
    · intro hopen
      have hgoal : cell (j + 1) = l.goal :=
        hdecides.resolve_left fun hclosed => absurd (hclosed.symm.trans hopen) Bool.false_ne_true
      exact ⟨hgoal, walk_of_goal m hclear hopen hgoal⟩

/-- A hall of six cells in a row with the goal in the fifth, and a wall in the first. -/
def hall : Level := ⟨"hall", 6, 1, ⟨1, 0⟩, .east, ⟨4, 0⟩, [⟨0, 0⟩]⟩

/-- A robot in the hall that looks away from the goal. -/
def lookingAway : MazeState := ⟨"hall", ⟨1, 0⟩, .west, .running, ""⟩

theorem hall_decides_moves :
    (IsLeast {k | 1 ≤ k ∧ k ≤ 5 ∧ hall.Decides ((⟨1, 0⟩ : Cell).steps .west true k)} 3 ∧
      ((game hall ⟨0⟩).apply (.move (-5) "m") lookingAway).verdict = .ended .win ∧
      ((game hall ⟨0⟩).apply (.move (-5) "m") lookingAway).state =
        ⟨"hall", ⟨4, 0⟩, .west, .win, winMessage⟩ ∧
      ((game hall ⟨0⟩).apply (.move (-5) "m") lookingAway).frames.map MazeState.position =
        [⟨2, 0⟩, ⟨3, 0⟩, ⟨4, 0⟩]) ∧
    IsLeast {k | 1 ≤ k ∧ k ≤ 1 ∧ hall.Decides ((⟨1, 0⟩ : Cell).steps .west false k)} 1 ∧
      ((game hall ⟨0⟩).apply (.move 1 "m") lookingAway).state =
        ⟨"hall", ⟨1, 0⟩, .west, .error, wallMessage⟩ := by
  have hfirst : IsLeast {k | 1 ≤ k ∧ k ≤ 5 ∧
      hall.Decides ((⟨1, 0⟩ : Cell).steps .west true k)} 3 := by
    refine ⟨⟨by decide, by decide, .inr rfl⟩, fun k ⟨hpos, _, hdecides⟩ => ?_⟩
    by_contra hk
    obtain rfl | rfl : k = 1 ∨ k = 2 := by omega
    all_goals revert hdecides; unfold Level.Decides; decide
  have hwall : IsLeast {k | 1 ≤ k ∧ k ≤ 1 ∧
      hall.Decides ((⟨1, 0⟩ : Cell).steps .west false k)} 1 :=
    ⟨⟨by decide, by decide, .inl (by decide)⟩, fun k hk => hk.1⟩
  obtain ⟨-, hends, -⟩ := move_ends_at_first_deciding_cell hall ⟨0⟩ (-5) "m" lookingAway
  obtain ⟨-, hstops, -⟩ := move_ends_at_first_deciding_cell hall ⟨0⟩ 1 "m" lookingAway
  obtain ⟨-, hverdict, hstate, hframes⟩ := (hends 3 hfirst).2 (by decide)
  obtain ⟨-, hstopped, -⟩ := (hstops 1 hwall).1 (by decide)
  refine ⟨⟨hfirst, hverdict, hstate, ?_⟩, hwall, hstopped⟩
  rw [hframes, hstate]
  rfl

end Maze

/-! ## Practice boards -/

namespace Practice

variable {b : Board} {back : Bool}

/-- Which way a walk goes is no matter if it has no cells. -/
theorem walk_congr_back {back' : Bool} {n : Nat} (h : n = 0 ∨ back = back') (s : PracticeState) :
    walk b back n s = walk b back' n s := by
  rcases h with rfl | rfl <;> rfl

/-- **A walk and another behind it** are one walk, if the game goes on after the first. -/
theorem walk_add_of_goOn {m : Nat} (n : Nat) {s : PracticeState}
    (hm : (walk b back m s).2 = .goOn) :
    walk b back (m + n) s = walk b back n (walk b back m s).1 := by
  induction m generalizing s with
  | zero =>
    rw [Nat.zero_add]
    rfl
  | succ m ih =>
    rw [Nat.succ_add]
    cases hin : b.inBounds (s.ahead back) with
    | false =>
      rw [walk_succ_of_not_inBounds hin] at hm
      cases hm
    | true =>
      rw [walk_succ hin] at hm
      rw [walk_succ hin, walk_succ hin, ih hm]

/-- More cells make no difference to a walk after which the game does not go on. -/
theorem walk_add_of_ne_goOn {m : Nat} (n : Nat) {s : PracticeState}
    (hm : (walk b back m s).2 ≠ .goOn) : walk b back (m + n) s = walk b back m s := by
  induction m generalizing s with
  | zero => exact absurd rfl hm
  | succ m ih =>
    rw [Nat.succ_add]
    cases hin : b.inBounds (s.ahead back) with
    | false => rw [walk_succ_of_not_inBounds hin, walk_succ_of_not_inBounds hin]
    | true =>
      rw [walk_succ hin] at hm
      rw [walk_succ hin, walk_succ hin, ih hm]

/-- **The game goes on after a walk exactly if all cells on the way are on the board.** -/
theorem verdict_walk_eq_goOn_iff {n : Nat} {s : PracticeState} :
    (walk b back n s).2 = .goOn ↔ ∀ c ∈ s.position.way s.facing back n, b.inBounds c = true := by
  induction n generalizing s with
  | zero => exact iff_of_true rfl nofun
  | succ n ih =>
    rw [Cell.way_succ, List.forall_mem_cons]
    cases hin : b.inBounds (s.ahead back) with
    | false =>
      rw [walk_succ_of_not_inBounds hin]
      exact iff_of_false nofun fun h => absurd (hin.symm.trans h.1) Bool.false_ne_true
    | true =>
      rw [walk_succ hin]
      exact ih.trans (and_iff_right hin).symm

/-- A walk after which the game goes on adds its way to the trail, and its cells to the number of
moves as far as they are counted. -/
theorem state_walk_of_goOn {n : Nat} {s : PracticeState} (hs : (walk b back n s).2 = .goOn)
    (hmoves : s.moves ≤ PracticeState.largestMoves) :
    (walk b back n s).1 =
      { s with
        position := s.position.steps s.facing back n
        trail := s.trail ++ s.position.way s.facing back n
        moves := min (s.moves + n) PracticeState.largestMoves } := by
  induction n generalizing s with
  | zero =>
    rw [walk_zero, Cell.way_zero, List.append_nil, Nat.add_zero, Nat.min_eq_left hmoves]
    rfl
  | succ n ih =>
    cases hin : b.inBounds (s.ahead back) with
    | false =>
      rw [walk_succ_of_not_inBounds hin] at hs
      cases hs
    | true =>
      rw [walk_succ hin] at hs
      rw [walk_succ hin, ih hs (Nat.min_le_right _ _), PracticeState.mk.injEq]
      refine ⟨rfl, rfl, ?_, ?_, rfl, rfl⟩
      · rw [Cell.way_succ]
        exact List.append_assoc s.trail [s.ahead back] _
      · show min (min (s.moves + 1) PracticeState.largestMoves + n) PracticeState.largestMoves = _
        omega

end Practice

end BlockRobot
