import BlockRobot.Proofs.Saving.Text

/-!
# Saving between two instructions

Whoever saves a game, goes away, and reads the game again later finds it as it was.  So games can be
saved and read again between any two instructions, as often as one likes, and answer to all
instructions to come as if nothing had happened (`Saving.saving_loses_nothing`).

That one state survives its text is known (`MazeState.ofText_toText`,
`PracticeState.ofText_toText`), if it can be held in memory.  What is left to see is that an
instruction leads from states that can be held in memory to such states.  It does because the robot
enters no cell beside the level or the board, whose size has 32 bits, and because the count of moves
stops at the largest number there is.  This holds of every instruction and every state, also after
the game has ended or refused an instruction, and wherever the robot stands.
-/

namespace BlockRobot

/-! ## Sessions -/

namespace Game

variable {σ φ : Type}

/-- An instruction of a session, and whether the state is saved and read again before it. -/
structure Step where
  saved : Bool
  op : Op

/-- How a game answers to instructions that are applied one after the other. -/
def answers (g : Game σ φ) : List Op → σ → List (Response σ φ)
  | [], _ => []
  | op :: ops, s => g.apply op s :: g.answers ops (g.apply op s).state

/-- The state that an instruction of a session meets. -/
def Step.met (step : Step) (reload : σ → Except ReadError σ) (s : σ) : Except ReadError σ :=
  if step.saved then reload s else .ok s

/-- How a game answers if the state is saved and read again before some of the instructions. -/
def answersReloading (g : Game σ φ) (reload : σ → Except ReadError σ) :
    List Step → σ → Except ReadError (List (Response σ φ))
  | [], _ => .ok []
  | step :: steps, s => do
    let s ← step.met reload s
    let r := g.apply step.op s
    let rs ← g.answersReloading reload steps r.state
    return r :: rs

/-- **Reloading changes no answer** if what reloading gives back is kept by all instructions. -/
theorem answersReloading_eq {g : Game σ φ} {reload : σ → Except ReadError σ} {P : σ → Prop}
    (hreload : ∀ s, P s → reload s = .ok s) (happly : ∀ op s, P s → P (g.apply op s).state)
    (steps : List Step) {s : σ} (hs : P s) :
    g.answersReloading reload steps s = .ok (g.answers (steps.map Step.op) s) := by
  induction steps generalizing s with
  | nil => rfl
  | cons step steps ih =>
    have hmet : step.met reload s = .ok s := by
      unfold Step.met
      split
      · exact hreload s hs
      · rfl
    rw [answersReloading, hmet]
    show (g.answersReloading reload steps (g.apply step.op s).state >>= _) = _
    rw [ih (happly step.op s hs)]
    rfl

end Game

/-! ## What instructions keep -/

namespace Maze

variable {l : Level} (hwidth : l.width ≤ Double.largestInteger)
  (hheight : l.height ≤ Double.largestInteger) (delay : Duration)

include hwidth hheight

theorem storable_walk (back : Bool) (n : Nat) {s : MazeState} (hs : s.Storable) :
    (walk l delay back n s).state.Storable := by
  induction n generalizing s with
  | zero => exact hs
  | succ n ih =>
    cases hopen : l.isOpen (s.ahead back) with
    | false =>
      rw [walk_succ_of_not_isOpen hopen]
      exact hs
    | true =>
      have hahead : (s.ahead back).Fits :=
        Cell.fits_of_withinSize hwidth hheight ((l.isOpen_iff _).1 hopen).1
      by_cases hgoal : s.ahead back = l.goal
      · rw [walk_succ_goal hopen hgoal]
        exact hahead
      · rw [walk_succ hopen hgoal]
        exact ih hahead

/-- **An instruction in a maze** leaves a state that can be held in memory. -/
theorem storable_apply (op : Op) (s : MazeState) (hs : s.Storable) :
    ((game l delay).apply op s).state.Storable := by
  cases op with
  | start id => exact hs
  | move steps id => exact storable_walk hwidth hheight delay _ _ hs
  | turn side id => exact hs
  | loop times body id => exact hs
  | wait ms id => exact hs

end Maze

namespace Practice

variable {b : Board} (hwidth : b.width ≤ Double.largestInteger)
  (hheight : b.height ≤ Double.largestInteger)

include hwidth hheight

theorem storable_walk (back : Bool) (n : Nat) {s : PracticeState} (hs : s.Storable) :
    (walk b back n s).1.Storable := by
  induction n generalizing s with
  | zero => exact hs
  | succ n ih =>
    cases hin : b.inBounds (s.ahead back) with
    | false =>
      rw [walk_succ_of_not_inBounds hin]
      exact ⟨hs.position, hs.trail, hs.moves⟩
    | true =>
      have hahead : (s.ahead back).Fits := Cell.fits_of_withinSize hwidth hheight hin
      rw [walk_succ hin]
      refine ih ⟨hahead, fun c hc => ?_, ?_⟩
      · rcases List.mem_append.1 hc with hc | hc
        · exact hs.trail c hc
        · exact List.mem_singleton.1 hc ▸ hahead
      · exact Nat.lt_of_le_of_lt (Nat.min_le_right _ _) (by decide)

/-- **An instruction on a board** leaves a state that can be held in memory. -/
theorem storable_apply (op : Op) (s : PracticeState) (hs : s.Storable) :
    ((game b).apply op s).state.Storable := by
  cases op with
  | start id => exact ⟨hs.position, hs.trail, hs.moves⟩
  | move steps id => exact storable_walk hwidth hheight _ _ hs
  | turn side id => exact ⟨hs.position, hs.trail, hs.moves⟩
  | loop times body id => exact hs
  | wait ms id => exact hs

end Practice

/-! ## Nothing is lost -/

namespace Saving

/-- **Saving loses nothing.**  States of games and vocabularies that can be held in memory are read
back from their texts as they were.  A level is read back as it was if it can be played, and
otherwise refused for the reason for which it cannot.  And a game that is saved and read again
between any two instructions answers as one that is not. -/
theorem saving_loses_nothing :
    (∀ s : MazeState, s.Storable → MazeState.ofText s.toText = .ok s) ∧
      (∀ s : PracticeState, s.Storable → PracticeState.ofText s.toText = .ok s) ∧
      (∀ v : Vocabulary, v.Storable → Vocabulary.ofText v.toText = .ok v) ∧
      (∀ l : Level, l.Storable → (l.problem? = none → Level.ofText l.toText = .ok l) ∧
        ∀ p, l.problem? = some p → Level.ofText l.toText = .error (.invalid l.id p)) ∧
      (∀ (l : Level) (delay : Duration), l.Storable → ∀ s : MazeState, s.Storable → ∀ steps,
        (Maze.game l delay).answersReloading (fun s => MazeState.ofText s.toText) steps s =
          .ok ((Maze.game l delay).answers (steps.map Game.Step.op) s)) ∧
      ∀ b : Board, b.width ≤ Double.largestInteger → b.height ≤ Double.largestInteger →
        ∀ s : PracticeState, s.Storable → ∀ steps,
          (Practice.game b).answersReloading (fun s => PracticeState.ofText s.toText) steps s =
            .ok ((Practice.game b).answers (steps.map Game.Step.op) s) := by
  have hmaze : ∀ s : MazeState, s.Storable → MazeState.ofText s.toText = .ok s :=
    fun _ => MazeState.ofText_toText
  have hpractice : ∀ s : PracticeState, s.Storable → PracticeState.ofText s.toText = .ok s :=
    fun _ => PracticeState.ofText_toText
  refine ⟨hmaze, hpractice, fun _ => Vocabulary.ofText_toText, fun l hl => ⟨fun h => ?_, ?_⟩,
    ?_, ?_⟩
  · rw [Level.ofText_toText hl, Level.checked, h]
  · intro p h
    rw [Level.ofText_toText hl, Level.checked, h]
  · intro l delay hl s hs steps
    exact Game.answersReloading_eq hmaze
      (Maze.storable_apply hl.width.2 hl.height.2 delay) steps hs
  · intro b hwidth hheight s hs steps
    exact Game.answersReloading_eq hpractice (Practice.storable_apply hwidth hheight) steps hs

/-- A cell at the far corner of the grid. -/
def corner : Cell := ⟨Double.largestInteger, Double.leastInteger⟩

/-- A level with a wall in the corner, and with characters in its name that have to be escaped. -/
def cornered : Level := ⟨"\"\\\n", 2, 1, ⟨0, 0⟩, .east, ⟨1, 0⟩, [⟨0, -1⟩, corner]⟩

/-- A game of which the robot stands in the corner. -/
def stranded : MazeState := ⟨cornered.id, corner, .west, .error, edgeMessage⟩

/-- A practice game after as many moves as are counted. -/
def exhausted : PracticeState :=
  ⟨corner, .south, [corner, ⟨0, 0⟩], PracticeState.largestMoves, .idle, ""⟩

/-- A session in which the state is saved before the first instruction and before a loop. -/
def steps : List Game.Step :=
  [⟨true, .start "a"⟩, ⟨false, .move (-3) "b"⟩, ⟨true, .loop .zero [] "c"⟩, ⟨true, .turn .left "d"⟩]

/-- What is at the ends of its range is kept too. -/
theorem corners_lose_nothing :
    MazeState.ofText stranded.toText = .ok stranded ∧
      PracticeState.ofText exhausted.toText = .ok exhausted ∧
      Vocabulary.ofText Vocabulary.maze.toText = .ok .maze ∧
      Level.ofText cornered.toText = .ok cornered ∧
      Level.ofText { cornered with width := 0 }.toText =
        .error (.invalid cornered.id (.size 0 1)) ∧
      (Maze.game cornered ⟨0⟩).answersReloading (fun s => MazeState.ofText s.toText) steps
          stranded =
        .ok ((Maze.game cornered ⟨0⟩).answers (steps.map Game.Step.op) stranded) ∧
      (Practice.game (.ofSize 2 1)).answersReloading (fun s => PracticeState.ofText s.toText) steps
          exhausted =
        .ok ((Practice.game (.ofSize 2 1)).answers (steps.map Game.Step.op) exhausted) := by
  have hcorner : corner.Fits := by
    unfold Cell.Fits
    decide
  have horigin : (⟨0, 0⟩ : Cell).Fits := by
    unfold Cell.Fits
    decide
  have hcells : ∀ c ∈ [corner, ⟨0, 0⟩], c.Fits :=
    List.forall_mem_cons.2 ⟨hcorner, List.forall_mem_singleton.2 horigin⟩
  have hwalls : ∀ c ∈ cornered.walls, c.Fits := by
    refine List.forall_mem_cons.2 ⟨?_, List.forall_mem_singleton.2 hcorner⟩
    unfold Cell.Fits
    decide
  have hgoal : cornered.goal.Fits := by
    unfold Cell.Fits
    decide
  have hlevel : cornered.Storable :=
    ⟨by decide, by decide, horigin, hgoal, hwalls, by decide⟩
  have hnarrow : { cornered with width := 0 }.Storable :=
    ⟨by decide, by decide, horigin, hgoal, hwalls, by decide⟩
  have hexhausted : exhausted.Storable := ⟨hcorner, hcells, by decide⟩
  have hvocabulary : Vocabulary.maze.Storable := by
    unfold Vocabulary.Storable
    decide +kernel
  obtain ⟨hmaze, hpractice, hread, hchecked, hgames, hboards⟩ := saving_loses_nothing
  exact ⟨hmaze stranded hcorner, hpractice exhausted hexhausted, hread _ hvocabulary,
    (hchecked cornered hlevel).1 (by decide), (hchecked _ hnarrow).2 _ (by decide),
    hgames cornered ⟨0⟩ hlevel stranded hcorner steps,
    hboards (.ofSize 2 1) (by decide) (by decide) exhausted hexhausted steps⟩

end Saving

end BlockRobot
