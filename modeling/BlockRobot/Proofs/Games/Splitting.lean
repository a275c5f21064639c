import BlockRobot.Proofs.Games.Moves
import BlockRobot.Proofs.Run.Unrolling

/-!
# Splitting a move

A move can be split in two that go the same way.  The robot looks at the same cells, one after the
other, and it makes no difference that it pauses in between.  The cell that decides a move may lie in
the first part, and then the second is never begun; or in the second; or in neither.  All that is
needed for this is how the walks of the games come apart (`walk_add_of_goOn`, `walk_add_of_ne_goOn`),
once for each game (`Maze.addsMoves_game`, `Practice.addsMoves_game`).

In a program any number of moves may be split, at any depth (`Op.Split`).  Unrolled, such a program
has other instructions and makes other calls, so its run is not an image of the run it had before.
What stays the same is where a tour comes to (`Tour.SameEnd`), and this is enough: it is kept when
tours are put one behind the other, and so by every loop.
-/

namespace BlockRobot

/-! ## Numbers of steps that go the same way -/

/-- Two numbers of steps go the same way if neither goes against the other. -/
def SameWay (a b : Int) : Prop := (0 ≤ a ∧ 0 ≤ b) ∨ (a ≤ 0 ∧ b ≤ 0)

namespace SameWay

variable {a b : Int}

theorem symm (h : SameWay a b) : SameWay b a := h.imp And.symm And.symm

theorem natAbs_add (h : SameWay a b) : (a + b).natAbs = a.natAbs + b.natAbs := by
  rcases h with ⟨ha, hb⟩ | ⟨ha, hb⟩ <;> omega

/-- The first of two numbers of steps goes the way of both, if it goes at all. -/
theorem natAbs_eq_zero_or (h : SameWay a b) :
    a.natAbs = 0 ∨ decide (a < 0) = decide (a + b < 0) := by
  rw [decide_eq_decide]
  rcases h with ⟨ha, hb⟩ | ⟨ha, hb⟩ <;> omega

/-- So does the second. -/
theorem natAbs_eq_zero_or_right (h : SameWay a b) :
    b.natAbs = 0 ∨ decide (b < 0) = decide (a + b < 0) := by
  rw [Int.add_comm]
  exact h.symm.natAbs_eq_zero_or

end SameWay

/-! ## Games -/

/-- A game adds moves if a move in two parts that go the same way comes to what it comes to as a
whole, in any state: through the first part if the game goes on after that, and otherwise in it. -/
structure Game.AddsMoves {σ φ : Type} (g : Game σ φ) : Prop where
  through : ∀ {a b : Int}, SameWay a b → ∀ (id id₁ id₂ : String) (s : σ),
    (g.apply (.move a id₁) s).verdict = .goOn →
      (g.apply (.move b id₂) (g.apply (.move a id₁) s).state).verdict =
          (g.apply (.move (a + b) id) s).verdict ∧
        (g.apply (.move b id₂) (g.apply (.move a id₁) s).state).state =
          (g.apply (.move (a + b) id) s).state
  within : ∀ {a b : Int}, SameWay a b → ∀ (id id₁ : String) (s : σ),
    (g.apply (.move a id₁) s).verdict ≠ .goOn →
      (g.apply (.move a id₁) s).verdict = (g.apply (.move (a + b) id) s).verdict ∧
        (g.apply (.move a id₁) s).state = (g.apply (.move (a + b) id) s).state

/-- **A maze adds moves.** -/
theorem Maze.addsMoves_game (l : Level) (delay : Duration) : (Maze.game l delay).AddsMoves := by
  have happly (n : Int) (id : String) (s : MazeState) :
      (Maze.game l delay).apply (.move n id) s = walk l delay (n < 0) n.natAbs s := rfl
  constructor
  · intro a b hab id id₁ id₂ s hgo
    rw [happly, walk_congr_back hab.natAbs_eq_zero_or] at hgo
    rw [happly, happly, happly, walk_congr_back hab.natAbs_eq_zero_or,
      walk_congr_back hab.natAbs_eq_zero_or_right, hab.natAbs_add, walk_add_of_goOn _ hgo]
    exact ⟨rfl, rfl⟩
  · intro a b hab id id₁ s hends
    rw [happly, walk_congr_back hab.natAbs_eq_zero_or] at hends
    rw [happly, happly, walk_congr_back hab.natAbs_eq_zero_or, hab.natAbs_add,
      walk_add_of_ne_goOn _ hends]
    exact ⟨rfl, rfl⟩

/-- **A practice board adds moves.** -/
theorem Practice.addsMoves_game (b : Board) : (Practice.game b).AddsMoves := by
  have hstate (n : Int) (id : String) (s : PracticeState) :
      ((Practice.game b).apply (.move n id) s).state = (walk b (n < 0) n.natAbs s).1 := rfl
  have hverdict (n : Int) (id : String) (s : PracticeState) :
      ((Practice.game b).apply (.move n id) s).verdict = (walk b (n < 0) n.natAbs s).2 := rfl
  constructor
  · intro m n hmn id id₁ id₂ s hgo
    rw [hverdict, walk_congr_back hmn.natAbs_eq_zero_or] at hgo
    rw [hverdict, hverdict, hstate, hstate, hstate, walk_congr_back hmn.natAbs_eq_zero_or,
      walk_congr_back hmn.natAbs_eq_zero_or_right, hmn.natAbs_add, walk_add_of_goOn _ hgo]
    exact ⟨rfl, rfl⟩
  · intro m n hmn id id₁ s hends
    rw [hverdict, walk_congr_back hmn.natAbs_eq_zero_or] at hends
    rw [hverdict, hverdict, hstate, hstate, walk_congr_back hmn.natAbs_eq_zero_or, hmn.natAbs_add,
      walk_add_of_ne_goOn _ hends]
    exact ⟨rfl, rfl⟩

/-! ## Programs -/

/-- Instructions in which moves are split, any number of them and at any depth.  The parts of a move
may have ids of their own. -/
inductive Op.Split : List Op → List Op → Prop
  | nil : Split [] []
  | keep (op : Op) {ops ops' : List Op} (rest : Split ops ops') : Split (op :: ops) (op :: ops')
  | move {a b : Int} (same : SameWay a b) (id id₁ id₂ : String) {ops ops' : List Op}
      (rest : Split ops ops') : Split (.move (a + b) id :: ops) (.move a id₁ :: .move b id₂ :: ops')
  | inside (times : Double) (id : String) {body body' ops ops' : List Op}
      (within : Split body body') (rest : Split ops ops') :
      Split (.loop times body id :: ops) (.loop times body' id :: ops')

namespace Tour

variable {σ : Type}

/-- Two tours come to the same end, whatever calls they make. -/
def SameEnd (t t' : Tour σ) : Prop := t.state = t'.state ∧ t.verdict = t'.verdict

namespace SameEnd

variable {t t' : Tour σ} {next next' : σ → Tour σ}

theorem refl (t : Tour σ) : SameEnd t t := ⟨rfl, rfl⟩

/-- Tours one behind the other come to the same end if each does. -/
theorem andThen (h : SameEnd t t') (hnext : ∀ s, SameEnd (next s) (next' s)) :
    SameEnd (t.andThen next) (t'.andThen next') := by
  obtain ⟨hstate, hverdict⟩ := h
  by_cases hgo : t.verdict = .goOn
  · rw [andThen_of_goOn hgo, andThen_of_goOn (hverdict ▸ hgo), ← hstate]
    exact hnext t.state
  · rw [andThen_of_ne_goOn hgo, andThen_of_ne_goOn (hverdict ▸ hgo)]
    exact ⟨hstate, hverdict⟩

theorem rounds (h : ∀ s, SameEnd (next s) (next' s)) (n : Nat) (s : σ) :
    SameEnd (Tour.rounds next n s) (Tour.rounds next' n s) := by
  induction n generalizing s with
  | zero => exact refl _
  | succ n ih => exact (h s).andThen ih

end SameEnd

end Tour

namespace Game

variable {σ φ : Type} {g : Game σ φ}

/-- The tour of a move comes to the same end as that of its parts. -/
theorem AddsMoves.take (hg : g.AddsMoves) {a b : Int} (hab : SameWay a b) (id id₁ id₂ : String)
    (s : σ) :
    Tour.SameEnd (g.take (.move (a + b) id) s)
      ((g.take (.move a id₁) s).andThen (g.take (.move b id₂))) := by
  by_cases hgo : (g.apply (.move a id₁) s).verdict = .goOn
  · obtain ⟨hverdict, hstate⟩ := hg.through hab id id₁ id₂ s hgo
    have hfirst : (g.take (.move a id₁) s).verdict = .goOn := hgo
    rw [Tour.andThen_of_goOn hfirst]
    exact ⟨hstate.symm, hverdict.symm⟩
  · obtain ⟨hverdict, hstate⟩ := hg.within hab id id₁ s hgo
    have hfirst : (g.take (.move a id₁) s).verdict ≠ .goOn := hgo
    rw [Tour.andThen_of_ne_goOn hfirst]
    exact ⟨hstate.symm, hverdict.symm⟩

/-- **Where a tour comes to is no matter of how its moves are split.** -/
theorem AddsMoves.tour (hg : g.AddsMoves) {ops ops' : List Op} (h : Op.Split ops ops') (s : σ) :
    Tour.SameEnd (g.tour (Op.unrolledAll ops) s) (g.tour (Op.unrolledAll ops') s) := by
  induction h generalizing s with
  | nil => exact .refl _
  | keep op rest ih =>
    rw [Op.unrolledAll, Op.unrolledAll, tour_append, tour_append]
    exact (Tour.SameEnd.refl _).andThen ih
  | @move a b same id id₁ id₂ ops ops' rest ih =>
    show Tour.SameEnd ((g.take (.move (a + b) id) s).andThen (g.tour (Op.unrolledAll ops)))
      ((g.take (.move a id₁) s).andThen fun t =>
        (g.take (.move b id₂) t).andThen (g.tour (Op.unrolledAll ops')))
    rw [← Tour.andThen_assoc]
    exact (hg.take same id id₁ id₂ s).andThen ih
  | @inside times id body body' ops ops' within rest ihbody ih =>
    rw [Op.unrolledAll, Op.unrolledAll, tour_append, tour_append]
    refine Tour.SameEnd.andThen ?_ ih
    rw [Op.unrolled, Op.unrolled, tour_cons, tour_cons]
    -- the loop itself is only announced, and the call it makes is not compared
    refine Tour.SameEnd.andThen ⟨rfl, rfl⟩ fun t => ?_
    rw [tour_flatten_replicate, tour_flatten_replicate]
    exact Tour.SameEnd.rounds ihbody times.repetitions t

/-- **The end of a run is no matter of how its moves are split**, if nobody stops it. -/
theorem AddsMoves.run (hg : g.AddsMoves) {p p' : Program} (hp : Op.Split p.ops p'.ops)
    {α β : Type} (h : Host α φ) (h' : Host β φ) (initial : σ) (host : α) (host' : β)
    (hun : (run g h p initial host).Unstopped) (hun' : (run g h' p' initial host').Unstopped) :
    (run g h p initial host).state = (run g h' p' initial host').state ∧
      (run g h p initial host).ending = (run g h' p' initial host').ending := by
  obtain ⟨-, hstate, hending⟩ := Run.run_of_unstopped g h p initial host hun
  obtain ⟨-, hstate', hending'⟩ := Run.run_of_unstopped g h' p' initial host' hun'
  obtain ⟨hsame, hverdict⟩ : Tour.SameEnd (Run.programTour g p initial)
    (Run.programTour g p' initial) := hg.tour hp (g.reset initial).2
  rw [hstate, hstate', hending, hending', hsame, hverdict]
  exact ⟨rfl, rfl⟩

end Game

/-- **Moves compose**, in every maze and on every board, from any state.

* If the game goes on after the first part of a move, then the second part brings it to the verdict
  and the state of the whole move; otherwise the first part has done so.
* A program in which moves are split runs to the same state and the same end as it does with the
  moves in one piece, in front of any hosts that do not stop the runs. -/
theorem moves_compose :
    (∀ (l : Level) (delay : Duration), (Maze.game l delay).AddsMoves) ∧
    (∀ b : Board, (Practice.game b).AddsMoves) ∧
    ∀ {p p' : Program}, Op.Split p.ops p'.ops → ∀ {α β : Type},
      (∀ (l : Level) (delay : Duration) (h : Host α MazeState) (h' : Host β MazeState)
        (initial : MazeState) (host : α) (host' : β),
        (run (Maze.game l delay) h p initial host).Unstopped →
        (run (Maze.game l delay) h' p' initial host').Unstopped →
          (run (Maze.game l delay) h p initial host).state =
              (run (Maze.game l delay) h' p' initial host').state ∧
            (run (Maze.game l delay) h p initial host).ending =
              (run (Maze.game l delay) h' p' initial host').ending) ∧
      ∀ (b : Board) (h : Host α PracticeState) (h' : Host β PracticeState)
        (initial : PracticeState) (host : α) (host' : β),
        (run (Practice.game b) h p initial host).Unstopped →
        (run (Practice.game b) h' p' initial host').Unstopped →
          (run (Practice.game b) h p initial host).state =
              (run (Practice.game b) h' p' initial host').state ∧
            (run (Practice.game b) h p initial host).ending =
              (run (Practice.game b) h' p' initial host').ending := by
  refine ⟨Maze.addsMoves_game, Practice.addsMoves_game, fun hp => ⟨?_, ?_⟩⟩
  · intro l delay h h' initial host host' hun hun'
    exact (Maze.addsMoves_game l delay).run hp h h' initial host host' hun hun'
  · intro b h h' initial host host' hun hun'
    exact (Practice.addsMoves_game b).run hp h h' initial host host' hun hun'

/-- Backwards, two cells at a time. -/
def byTwos : Program :=
  ⟨[.turn .left "t", .turn .left "u", .loop (.ofInt 2) [.move (-2) "m"] "l"]⟩

/-- Backwards the same way, one cell at a time. -/
def byOnes : Program :=
  ⟨[.turn .left "t", .turn .left "u", .loop (.ofInt 2) [.move (-1) "m", .move (-1) "n"] "l"]⟩

/-- A run through the hall, while the host waits for nothing. -/
def throughHall (p : Program) : Report MazeState MazeState (Timetable MazeState) :=
  run (Maze.game Maze.hall ⟨0⟩) (Timetable.host MazeState) p Maze.lookingAway {}

/-- A board of four cells in a row. -/
def row : Board := ⟨4, 1, ⟨1, 0⟩, .east⟩

/-- A run along the row, while the host waits for nothing. -/
def alongRow (p : Program) : Report PracticeState PracticeState (Timetable PracticeState) :=
  run (Practice.game row) (Timetable.host PracticeState) p (.initial row) {}

theorem byOnes_ends_as_byTwos :
    Op.Split byTwos.ops byOnes.ops ∧
      ((throughHall byOnes).ending = .outcome .win ∧
        (throughHall byTwos).ending = .outcome .win ∧
        (throughHall byTwos).state = (throughHall byOnes).state) ∧
      (alongRow byOnes).ending = .outcome .collision ∧
        (alongRow byTwos).ending = .outcome .collision ∧
        (alongRow byTwos).state = (alongRow byOnes).state := by
  have hback : SameWay (-1) (-1) := .inr ⟨by decide, by decide⟩
  have hsplit : Op.Split byTwos.ops byOnes.ops :=
    .keep _ (.keep _ (.inside _ _ (.move hback "m" "m" "n" .nil) .nil))
  have hwon : (throughHall byOnes).ending = .outcome .win := by decide +kernel
  have hoff : (alongRow byOnes).ending = .outcome .collision := by decide +kernel
  obtain ⟨-, -, hruns⟩ := moves_compose
  obtain ⟨hmaze, -⟩ := hruns hsplit
  obtain ⟨-, hboard⟩ := hruns hsplit
  obtain ⟨hstate, hending⟩ := hmaze Maze.hall ⟨0⟩ (Timetable.host MazeState)
    (Timetable.host MazeState) Maze.lookingAway {} {} (by decide +kernel) (by decide +kernel)
  obtain ⟨hstate', hending'⟩ := hboard row (Timetable.host PracticeState)
    (Timetable.host PracticeState) (.initial row) {} {} (by decide +kernel) (by decide +kernel)
  exact ⟨hsplit, ⟨hwon, hending.trans hwon, hstate⟩, hoff, hending'.trans hoff, hstate'⟩

end BlockRobot
