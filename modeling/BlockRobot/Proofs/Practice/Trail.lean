import BlockRobot.Practice
import BlockRobot.Proofs.Run.Verdicts
import Mathlib.Data.List.Chain

/-!
# The trail of a practice session

Position, trail and number of moves are three accounts of one walk.  They agree whatever the
board, the program and the host are, at every moment of a run (`Practice.run_keeps_trail`).

* `Faithful` says that they agree.  Entering a cell keeps that if the cell is next to the robot
  and on the board (`Faithful.entered`); nothing else that a game does touches them
  (`Faithful.relabelled`), so leaving the board does not either.
* It is therefore kept by every instruction, also by one that ends the run, and needs no
  knowledge of the verdicts (`faithful_after`).
* The status does need it.  `walk_comes` says how a move ends: the robot has gone all the way,
  or it stands in front of the edge after fewer cells.  An instruction after which the game
  goes on leaves no error behind (`status_keptBy`), and the only other way out of an instruction
  is the edge (`concluded_run`).

The start of the board need not be on it.  A robot beside the board can walk onto it, so only
the cells after the first are said to be on the board.
-/

namespace BlockRobot

/-! ## Cells side by side -/

/-- Two cells side by side: one coordinate is the same, the other differs by one. -/
def Cell.Adjacent (c d : Cell) : Prop :=
  (c.x = d.x ∧ (d.y - c.y).natAbs = 1) ∨ (c.y = d.y ∧ (d.x - c.x).natAbs = 1)

/-- A step leads to the next cell. -/
theorem Cell.adjacent_step (c : Cell) (f : Facing) (back : Bool) : c.Adjacent (c.step f back) := by
  unfold Adjacent
  cases f <;> cases back <;> simp only [step_ahead, step_behind, Facing.dx, Facing.dy] <;> omega

namespace Practice

variable {b : Board}

/-! ## What the trail records -/

/-- The trail, the position and the number of moves of a state tell of the same walk. -/
structure Faithful (b : Board) (s : PracticeState) : Prop where
  /-- The trail begins on the start of the board; so it is not empty. -/
  head : s.trail.head? = some b.start
  /-- It ends where the robot is. -/
  last : s.trail.getLast? = some s.position
  /-- It leads from each cell to the next. -/
  chain : s.trail.IsChain Cell.Adjacent
  /-- Each cell that was entered is on the board. -/
  inBounds : ∀ c ∈ s.trail.tail, b.inBounds c = true
  /-- The number of moves is that of the cells entered, as far as it is counted. -/
  moves : s.moves = min (s.trail.length - 1) PracticeState.largestMoves

theorem faithful_initial (b : Board) : Faithful b (.initial b) :=
  ⟨rfl, rfl, .singleton b.start, nofun, rfl⟩

/-- What a game tells of a state besides the walk is no matter of the trail. -/
theorem Faithful.relabelled {s : PracticeState} (hs : Faithful b s) (facing : Facing)
    (status : Status) (message : String) :
    Faithful b { s with facing := facing, status := status, message := message } :=
  ⟨hs.head, hs.last, hs.chain, hs.inBounds, hs.moves⟩

theorem Faithful.left {s : PracticeState} (hs : Faithful b s) : Faithful b s.left :=
  hs.relabelled s.facing .error edgeMessage

/-- **Entering the next cell keeps the record**, if that cell is on the board. -/
theorem Faithful.entered {s : PracticeState} (hs : Faithful b s) {back : Bool}
    (hin : b.inBounds (s.ahead back) = true) : Faithful b (s.entered (s.ahead back)) := by
  obtain ⟨entered, htrail⟩ : ∃ entered, s.trail = b.start :: entered :=
    List.head?_eq_some_iff.1 hs.head
  constructor
  case head =>
    show (s.trail ++ [s.ahead back]).head? = _
    rw [htrail]
    rfl
  case last => exact List.getLast?_concat
  case chain =>
    refine hs.chain.append (.singleton _) fun c hc d hd => ?_
    rw [hs.last] at hc
    obtain rfl := Option.some.inj hc
    obtain rfl := Option.some.inj hd
    exact s.position.adjacent_step s.facing back
  case inBounds =>
    show ∀ c ∈ (s.trail ++ [s.ahead back]).tail, b.inBounds c = true
    have htail := hs.inBounds
    rw [htrail] at htail ⊢
    intro c hc
    rcases List.mem_append.1 hc with hc | hc
    · exact htail c hc
    · rw [List.mem_singleton.1 hc]
      exact hin
  case moves =>
    have hmoves := hs.moves
    show min (s.moves + 1) PracticeState.largestMoves =
      min ((s.trail ++ [s.ahead back]).length - 1) PracticeState.largestMoves
    rw [htrail, List.length_cons] at hmoves
    rw [htrail, List.length_append, List.length_cons, List.length_singleton]
    omega

/-! ## One move -/

/-- The record is kept over a walk of any number of cells, so also while a move is under way. -/
theorem Faithful.walk {s : PracticeState} (hs : Faithful b s) (back : Bool) (n : Nat) :
    Faithful b (walk b back n s).1 := by
  induction n generalizing s with
  | zero => exact hs
  | succ n ih =>
    cases hin : b.inBounds (s.ahead back) with
    | false =>
      rw [walk_succ_of_not_inBounds hin]
      exact hs.left
    | true =>
      rw [walk_succ hin]
      exact ih (hs.entered hin)

/-- How a walk of `n` cells from `s` is cut short: after `k` of them the robot stands where the
next step would leave the board, and this is all that the state `t` left behind adds. -/
def CutShort (b : Board) (back : Bool) (n : Nat) (s t : PracticeState) : Prop :=
  ∃ k stand, k < n ∧ Practice.walk b back k s = (stand, .goOn) ∧
    b.inBounds (stand.ahead back) = false ∧ t = stand.left

/-- **A walk goes all the way or is cut short.** -/
theorem walk_comes (b : Board) (back : Bool) (n : Nat) (s : PracticeState) :
    ((walk b back n s).2 = .goOn ∧ (walk b back n s).1.status = s.status) ∨
      ((walk b back n s).2 = .ended .collision ∧ CutShort b back n s (walk b back n s).1) := by
  induction n generalizing s with
  | zero => exact .inl ⟨rfl, rfl⟩
  | succ n ih =>
    cases hin : b.inBounds (s.ahead back) with
    | false =>
      rw [walk_succ_of_not_inBounds hin]
      exact .inr ⟨rfl, 0, s, n.succ_pos, rfl, hin, rfl⟩
    | true =>
      rw [walk_succ hin]
      refine (ih (s.entered (s.ahead back))).imp_right fun ⟨hverdict, hcut⟩ => ⟨hverdict, ?_⟩
      obtain ⟨k, stand, hk, hwalk, hout, hleft⟩ := hcut
      exact ⟨k + 1, stand, Nat.succ_lt_succ hk, (walk_succ hin).trans hwalk, hout, hleft⟩

/-! ## One instruction -/

@[simp] theorem reset_game (b : Board) (s : PracticeState) :
    (game b).reset s = ([.initial b], .initial b) := rfl

/-- Every instruction keeps the record, whatever the verdict on it. -/
theorem Faithful.apply {s : PracticeState} (hs : Faithful b s) (op : Op) :
    Faithful b ((game b).apply op s).state := by
  cases op with
  | start id => exact hs.relabelled s.facing .running ""
  | move steps id => exact hs.walk _ _
  | turn side id => exact hs.relabelled (s.facing.turned side) s.status s.message
  | _ => exact hs

/-- An instruction shows at most the state it leaves. -/
theorem eq_state_of_mem_frames {op : Op} {s frame : PracticeState}
    (hframe : frame ∈ ((game b).apply op s).frames) : frame = ((game b).apply op s).state := by
  cases op with
  | wait ms id => exact (List.not_mem_nil hframe).elim
  | loop times body id => exact (List.not_mem_nil hframe).elim
  | _ => exact List.mem_singleton.1 hframe

/-- What an instruction can come to, with the state it leaves. -/
inductive Comes (b : Board) (s : PracticeState) : Op → PracticeState → Verdict → Prop
  | through {op : Op} {t : PracticeState} (status : s.status ≠ .error → t.status ≠ .error) :
      Comes b s op t .goOn
  | off {steps : Int} {id : String} {t : PracticeState}
      (cut : CutShort b (steps < 0) steps.natAbs s t) :
      Comes b s (.move steps id) t (.ended .collision)

theorem apply_comes {op : Op} (hop : op.isLoop = false) (s : PracticeState) :
    Comes b s op ((game b).apply op s).state ((game b).apply op s).verdict := by
  cases op with
  | start id => exact .through fun _ => nofun
  | move steps id =>
    show Comes b s _ (walk b (steps < 0) steps.natAbs s).1 (walk b (steps < 0) steps.natAbs s).2
    rcases walk_comes b (steps < 0) steps.natAbs s with ⟨hverdict, hstatus⟩ | ⟨hverdict, hcut⟩
    · rw [hverdict]
      exact .through fun h => hstatus ▸ h
    · rw [hverdict]
      exact .off hcut
  | turn side id => exact .through fun h => h
  | wait ms id => exact .through fun h => h
  | loop times body id => cases hop

/-- No error is left behind by an instruction after which the game goes on. -/
theorem status_keptBy (b : Board) : (game b).KeptBy fun s => s.status ≠ .error := by
  intro op s hop hs hverdict
  have hcomes := apply_comes (b := b) hop s
  rw [hverdict] at hcomes
  cases hcomes with
  | through status => exact status hs

/-! ## Whole runs -/

/-- The record is faithful after any instructions. -/
theorem faithful_after (b : Board) (ops : List Op) :
    Faithful b ((game b).after ops (.initial b)) :=
  Game.after_keeps_always (fun op _ _ hs => hs.apply op) ops (faithful_initial b)

/-- What the state at the end says of how a run ended. -/
structure Concluded {α : Type} (b : Board) (r : Report PracticeState PracticeState α) : Prop where
  not_failed : ∀ message, r.ending ≠ .failed message
  not_crashed : r.ending ≠ .crashed
  not_won : r.ending ≠ .outcome .win
  collision_iff : r.ending = .outcome .collision ↔ r.state.status = .error
  message : r.ending = .outcome .collision → r.state.message = edgeMessage
  edge : r.ending = .outcome .collision →
    ∃ earlier steps id, applications r.log = earlier ++ [.move steps id] ∧
      CutShort b (steps < 0) steps.natAbs ((game b).after earlier (.initial b)) r.state

/-- If the game did not go on after the last instruction, that was a move to the edge. -/
theorem concluded_of_comes {α : Type} {r : Report PracticeState PracticeState α}
    {earlier : List Op} {op : Op} (happs : applications r.log = earlier ++ [op]) {v : Verdict}
    (hcomes : Comes b ((game b).after earlier (.initial b)) op r.state v) (hne : v ≠ .goOn)
    (hend : r.ending = v.ending) : Concluded b r := by
  cases hcomes with
  | through status => exact absurd rfl hne
  | off cut =>
    have hcollision : r.ending = .outcome .collision := hend
    obtain ⟨-, stand, -, -, -, hleft⟩ := id cut
    constructor
    case collision_iff => exact iff_of_true hcollision (by rw [hleft]; rfl)
    case message => exact fun _ => by rw [hleft]; rfl
    case edge => exact fun _ => ⟨earlier, _, _, happs, cut⟩
    all_goals rw [hcollision]; exact nofun

/-- **The state at the end** says whether the robot came to the edge. -/
theorem concluded_run (b : Board) {α : Type} (h : Host α PracticeState) (p : Program)
    (initial : PracticeState) (host : α) : Concluded b (run (game b) h p initial host) := by
  have hstate := Run.state_run_eq_after (game b) h p initial host
  have hverdicts := Run.verdicts_run (game b) h p initial host
  rw [reset_game] at hstate hverdicts
  rcases hverdicts with ⟨hthrough, hend⟩ | ⟨earlier, op, happs, -, hne, hend⟩
  · have hstatus : (run (game b) h p initial host).state.status ≠ .error := by
      rw [hstate]
      exact Game.after_keeps (status_keptBy b) hthrough nofun
    have hcollision : (run (game b) h p initial host).ending ≠ .outcome .collision := by
      rcases hend with hend | hend <;> rw [hend] <;> exact nofun
    constructor
    case collision_iff => exact iff_of_false hcollision hstatus
    case message | edge => exact fun h => absurd h hcollision
    all_goals rcases hend with hend | hend <;> rw [hend] <;> exact nofun
  · have hop := Run.isLoop_eq_false_of_applications happs
    have hcomes := apply_comes (b := b) hop ((game b).after earlier (.initial b))
    rw [happs, Game.after_concat _ hop] at hstate
    rw [← hstate] at hcomes
    exact concluded_of_comes happs hcomes hne hend

/-- **The trail is a faithful record**, whatever the board, the program and the host are:

* in every frame on record;
* before each instruction, and while a move is under way, after any number of its cells;
* at the end, where the state says how the run ended. -/
theorem run_keeps_trail (b : Board) {α : Type} (h : Host α PracticeState) (p : Program)
    (initial : PracticeState) (host : α) :
    (∀ frame ∈ framesShown (run (game b) h p initial host).log, Faithful b frame) ∧
    (∀ earlier op later,
      applications (run (game b) h p initial host).log = earlier ++ op :: later →
      Faithful b ((game b).after earlier (.initial b)) ∧
      ∀ steps id, op = .move steps id → ∀ cells ≤ steps.natAbs,
        Faithful b (walk b (steps < 0) cells ((game b).after earlier (.initial b))).1) ∧
    Faithful b (run (game b) h p initial host).state ∧
    Concluded b (run (game b) h p initial host) := by
  refine ⟨fun frame hframe => ?_, fun earlier op later hsplit => ?_, ?_,
    concluded_run b h p initial host⟩
  · rw [Run.frames_run, List.mem_append] at hframe
    rcases hframe with hframe | hframe
    · rw [List.mem_singleton.1 hframe]
      exact faithful_initial b
    · obtain ⟨earlier, op, later, -, hframe⟩ := Game.exists_of_mem_framesAlong
        (fun op hop => Run.isLoop_eq_false_of_mem_applications hop) hframe
      rw [eq_state_of_mem_frames hframe]
      exact (faithful_after b earlier).apply op
  · have hbefore := faithful_after b earlier
    exact ⟨hbefore, fun steps id _ cells _ => hbefore.walk _ cells⟩
  · rw [Run.state_run_eq_after]
    exact faithful_after b _

/-- A robot that walks onto a board of one cell and would walk off it. -/
example : (run (game ⟨1, 1, ⟨-1, 0⟩, .east⟩) (Timetable.host PracticeState)
    ⟨[.start "s", .move 2 "m"]⟩ (.initial (.ofSize 0 0)) {}).state =
      ⟨⟨0, 0⟩, .east, [⟨-1, 0⟩, ⟨0, 0⟩], 1, .error, edgeMessage⟩ := by
  decide +kernel

end Practice

end BlockRobot
