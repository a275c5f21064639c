import BlockRobot.Proofs.Run.Walk
import BlockRobot.Rehearsal
import BlockRobot.Run.Timetable
import Mathlib.Tactic.Set

/-!
# A run is the walk of a flat list

A program is a tree, and its walk is a recursion with two ways out of every loop.  Its
meaning needs neither.  Unrolling writes the program as one flat list, in which a loop
stands once for itself, to be announced, and its body follows as often as the loop says.
A run that nobody stops goes along that list from left to right: it makes the calls of
each instruction, hands the state of the game on, and ends right behind the first
instruction after which the game does not go on.

* `Op.unrolledAll` is the flat list, and `Op.calls` what is asked for one entry of it.  A body
  stands there `Double.repetitions` times, the whole part of the number of the loop
  (`Double.repetitions_eq_wholePart`, and `Double.repetitions_of_isNaN` if it is no number).
* A `Tour` is what comes of going along: the calls, the state left behind, and the verdict.
  Tours can be put one after the other (`Tour.andThen`), which is associative, so the tour
  of two lists is the tour of the first and then of the second (`Game.tour_append`).
* `follows_walk` compares any walk with the tour of its unrolling: a walk that was not
  stopped makes the very calls of the tour, a walk that was stopped makes the first of them.
* `run_eq_walk_of_unrolling` is the statement for a whole run.

## Why the comparison speaks of stopped walks too

A stop cuts a walk somewhere inside nested loops.  What is known of the calls up to there
is just that they begin the tour, and this is what survives when stretches are put one
after the other.  So one induction gives both the meaning of a run that is not stopped and
the fact that stopping changes nothing about the past.
-/

namespace BlockRobot

/-- What a run asks of others for an instruction: of the host to take note of it, of the
game to apply it. -/
inductive Call where
  | announce (id : String)
  | apply (op : Op)

namespace Op

mutual

/-- An instruction unrolled: a loop stands for itself once, and then for its body. -/
def unrolled : Op → List Op
  | .loop times body id =>
    .loop times body id :: (List.replicate times.repetitions (unrolledAll body)).flatten
  | .start id => [.start id]
  | .move steps id => [.move steps id]
  | .turn side id => [.turn side id]
  | .wait ms id => [.wait ms id]

/-- The instructions of a list unrolled, in order. -/
def unrolledAll : List Op → List Op
  | [] => []
  | op :: ops => unrolled op ++ unrolledAll ops

end

@[simp] theorem unrolledAll_nil : unrolledAll [] = [] := rfl

theorem unrolledAll_append (as bs : List Op) :
    unrolledAll (as ++ bs) = unrolledAll as ++ unrolledAll bs := by
  induction as with
  | nil => rfl
  | cons a as ih => rw [List.cons_append, unrolledAll, ih, unrolledAll, List.append_assoc]

theorem unrolledAll_singleton (op : Op) : unrolledAll [op] = unrolled op := by
  rw [unrolledAll, unrolledAll_nil, List.append_nil]

theorem unrolled_of_not_isLoop {op : Op} (hop : op.isLoop = false) : op.unrolled = [op] := by
  cases op with
  | loop times body id => simp [isLoop] at hop
  | _ => rfl

/-- The calls for one entry of a flat list.  A loop is announced; anything else is
announced and then applied. -/
def calls (op : Op) : List Call :=
  if op.isLoop then [.announce op.id] else [.announce op.id, .apply op]

end Op

/-! ## Tours -/

/-- What comes of going along some instructions: the calls that are made, the state the
game is left in, and whether it goes on. -/
structure Tour (σ : Type) where
  calls : List Call
  state : σ
  verdict : Verdict

namespace Tour

variable {σ : Type}

/-- The tour of nothing. -/
def stay (s : σ) : Tour σ := ⟨[], s, .goOn⟩

/-- A tour, and another behind it if the game goes on. -/
def andThen (t : Tour σ) (next : σ → Tour σ) : Tour σ :=
  match t.verdict with
  | .goOn => ⟨t.calls ++ (next t.state).calls, (next t.state).state, (next t.state).verdict⟩
  | _ => t

theorem andThen_of_goOn {t : Tour σ} (ht : t.verdict = .goOn) (next : σ → Tour σ) :
    t.andThen next =
      ⟨t.calls ++ (next t.state).calls, (next t.state).state, (next t.state).verdict⟩ := by
  rw [andThen, ht]

theorem andThen_of_ne_goOn {t : Tour σ} (ht : t.verdict ≠ .goOn) (next : σ → Tour σ) :
    t.andThen next = t := by
  rw [andThen]
  split
  · rename_i hgo
    exact absurd hgo ht
  · rfl


@[simp] theorem andThen_stay (t : Tour σ) : t.andThen stay = t := by
  by_cases ht : t.verdict = .goOn
  · rw [andThen_of_goOn ht]
    simp [stay, ← ht]
  · exact andThen_of_ne_goOn ht stay

theorem andThen_assoc (t : Tour σ) (next last : σ → Tour σ) :
    (t.andThen next).andThen last = t.andThen fun s => (next s).andThen last := by
  by_cases ht : t.verdict = .goOn
  · by_cases hn : (next t.state).verdict = .goOn
    · have hmid : (t.andThen next).verdict = .goOn := by rw [andThen_of_goOn ht]; exact hn
      rw [andThen_of_goOn hmid, andThen_of_goOn ht fun s => (next s).andThen last,
        andThen_of_goOn hn, andThen_of_goOn ht next]
      simp only [List.append_assoc]
    · have hmid : (t.andThen next).verdict ≠ .goOn := by rw [andThen_of_goOn ht]; exact hn
      rw [andThen_of_ne_goOn hmid, andThen_of_goOn ht fun s => (next s).andThen last,
        andThen_of_ne_goOn hn, andThen_of_goOn ht next]
  · rw [andThen_of_ne_goOn ht, andThen_of_ne_goOn ht, andThen_of_ne_goOn ht]

/-- The calls of a tour come before those of what is put behind it. -/
theorem calls_prefix_andThen (t : Tour σ) (next : σ → Tour σ) :
    t.calls <+: (t.andThen next).calls := by
  by_cases ht : t.verdict = .goOn
  · rw [andThen_of_goOn ht]
    exact List.prefix_append _ _
  · exact (andThen_of_ne_goOn ht next).symm ▸ List.prefix_rfl

/-- A tour a number of times, one behind the other. -/
def rounds (t : σ → Tour σ) : Nat → σ → Tour σ
  | 0, s => stay s
  | n + 1, s => (t s).andThen (rounds t n)

end Tour

namespace Game

variable {σ φ : Type}

/-- The tour of one entry of a flat list. -/
def take (g : Game σ φ) (op : Op) (s : σ) : Tour σ :=
  if op.isLoop then ⟨op.calls, s, .goOn⟩
  else ⟨op.calls, (g.apply op s).state, (g.apply op s).verdict⟩

theorem take_of_not_isLoop (g : Game σ φ) {op : Op} (hop : op.isLoop = false) (s : σ) :
    g.take op s = ⟨op.calls, (g.apply op s).state, (g.apply op s).verdict⟩ := by
  simp [take, hop]

/-- The tour of a flat list. -/
def tour (g : Game σ φ) : List Op → σ → Tour σ
  | [], s => .stay s
  | op :: ops, s => (g.take op s).andThen (tour g ops)


theorem tour_cons (g : Game σ φ) (op : Op) (ops : List Op) (s : σ) :
    g.tour (op :: ops) s = (g.take op s).andThen (g.tour ops) := rfl

theorem tour_singleton (g : Game σ φ) (op : Op) (s : σ) : g.tour [op] s = g.take op s := by
  rw [tour_cons]
  exact Tour.andThen_stay _

/-- The tour of two lists is the tour of the first and then that of the second. -/
theorem tour_append (g : Game σ φ) (as bs : List Op) (s : σ) :
    g.tour (as ++ bs) s = (g.tour as s).andThen (g.tour bs) := by
  induction as generalizing s with
  | nil => rfl
  | cons a as ih =>
    rw [List.cons_append, tour_cons, tour_cons, Tour.andThen_assoc]
    congr 1
    funext t
    exact ih t

theorem tour_flatten_replicate (g : Game σ φ) (n : Nat) (ops : List Op) (s : σ) :
    g.tour (List.replicate n ops).flatten s = Tour.rounds (g.tour ops) n s := by
  induction n generalizing s with
  | zero => rfl
  | succ n ih =>
    rw [List.replicate_succ, List.flatten_cons, tour_append, Tour.rounds]
    congr 1
    funext t
    exact ih t

end Game

/-! ## The calls of a run -/

/-- The call that is made at a moment, if one is. -/
def Moment.call? {φ : Type} : Moment φ → Option Call
  | step op => some (.announce op.id)
  | applying op => some (.apply op)
  | _ => none

/-- The calls made in a run, in order. -/
def Report.calls {σ φ α : Type} (r : Report σ φ α) : List Call :=
  r.log.filterMap fun e => e.moment.call?

/-- No stop was asked for while the run was walking. -/
def Report.Unstopped {σ φ α : Type} (r : Report σ φ α) : Prop :=
  ∀ e ∈ r.log, e.effective = false

/-- The host that never asks for a stop. -/
def Host.patient {α φ : Type} (h : Host α φ) : Host α φ where
  react a phase m := ((h.react a phase m).1, false)

instance {σ φ α : Type} (r : Report σ φ α) : Decidable r.Unstopped :=
  inferInstanceAs (Decidable (∀ e ∈ r.log, e.effective = false))

namespace World

variable {σ φ α : Type}

/-- The calls made so far. -/
def calls (w : World σ φ α) : List Call := w.history.filterMap fun e => e.moment.call?

@[simp] theorem calls_put (s : σ) (w : World σ φ α) : (w.put s).calls = w.calls := rfl

@[simp] theorem calls_enter (p : Phase) (w : World σ φ α) : (w.enter p).calls = w.calls := rfl

theorem calls_tell (h : Host α φ) (m : Moment φ) (w : World σ φ α) :
    (w.tell h m).calls = w.calls ++ m.call?.toList := by
  rw [calls, history_tell, List.filterMap_append, calls]
  cases hm : m.call? <;> simp [hm]

theorem calls_tell_of_none (h : Host α φ) {m : Moment φ} (hm : m.call? = none)
    (w : World σ φ α) : (w.tell h m).calls = w.calls := by
  rw [calls_tell, hm]
  exact List.append_nil _

theorem calls_tellAll (h : Host α φ) {ms : List (Moment φ)} (hms : ∀ m ∈ ms, m.call? = none)
    (w : World σ φ α) : (w.tellAll h ms).calls = w.calls := by
  induction ms generalizing w with
  | nil => rfl
  | cons m ms ih =>
    rw [tellAll_cons, ih (fun n hn => hms n (List.mem_cons_of_mem m hn)),
      calls_tell_of_none h (hms m (List.mem_cons_self ..))]

end World

theorem Act.call?_moment {φ : Type} (a : Act φ) : a.moment.call? = none := by
  cases a <;> rfl

theorem Verdict.halt?_eq_none_iff {v : Verdict} : v.halt? = none ↔ v = .goOn := by
  cases v <;> simp [halt?]

/-- How a run ends in which this was the last verdict. -/
def Verdict.ending : Verdict → Ending
  | goOn => .done
  | ended o => .outcome o
  | failed message => .failed message
  | crashed => .crashed

namespace Run

variable {σ φ α : Type}

/-! ## Walks that follow tours -/

/-- A stretch from a world follows a tour: not stopped, it makes the calls of the tour and
comes to its state and verdict; stopped, it makes the first calls of the tour. -/
structure Follows (t : Tour σ) (w : World σ φ α) (r : Stretch σ φ α) : Prop where
  of_unstopped : r.1.stopped = false →
    r.1.calls = w.calls ++ t.calls ∧ r.1.state = t.state ∧ r.2 = t.verdict.halt?
  of_stopped : r.1.stopped = true → ∃ cs, cs <+: t.calls ∧ r.1.calls = w.calls ++ cs

/-- A stretch that makes no call and stays stopped, as those do that begin when the run has
been stopped. -/
def Idles (w : World σ φ α) (r : Stretch σ φ α) : Prop :=
  r.1.stopped = true ∧ r.1.calls = w.calls

/-- A stretch that makes the calls of a tour, stopped or not, follows it. -/
theorem Follows.of_calls {t : Tour σ} {w : World σ φ α} {r : Stretch σ φ α}
    (hcalls : r.1.calls = w.calls ++ t.calls) (hstate : r.1.state = t.state)
    (hhalt : r.2 = t.verdict.halt?) : Follows t w r := by
  constructor
  · intro _
    exact ⟨hcalls, hstate, hhalt⟩
  · intro _
    exact ⟨t.calls, List.prefix_rfl, hcalls⟩

/-- Where nothing is to be done, nothing is done. -/
theorem follows_stay (w : World σ φ α) : Follows (.stay w.state) w (w, none) :=
  .of_calls (List.append_nil _).symm rfl rfl

/-- Stretches that follow tours do so one after the other. -/
theorem Follows.andThen {t : Tour σ} {tnext : σ → Tour σ} {w : World σ φ α}
    {r : Stretch σ φ α} {next : World σ φ α → Stretch σ φ α} (hr : Follows t w r)
    (hidle : ∀ v, v.stopped = true → Idles v (next v))
    (hnext : ∀ v, v.stopped = false → Follows (tnext v.state) v (next v)) :
    Follows (t.andThen tnext) w (r.andThen next) := by
  obtain ⟨v, _ | halt⟩ := r
  · rw [Stretch.andThen_none]
    cases hv : v.stopped with
    | true =>
      obtain ⟨hstop, hcalls⟩ := hidle v hv
      obtain ⟨cs, hcs, hv'⟩ := hr.of_stopped hv
      constructor
      · intro hun
        exact absurd (hun.symm.trans hstop) (by simp)
      · intro _
        exact ⟨cs, hcs.trans (Tour.calls_prefix_andThen t tnext), hcalls.trans hv'⟩
    | false =>
      obtain ⟨hcalls, hstate, hhalt⟩ := hr.of_unstopped hv
      have hgo : t.verdict = .goOn := Verdict.halt?_eq_none_iff.1 hhalt.symm
      have hn := hnext v hv
      rw [hstate] at hn
      change v.calls = w.calls ++ t.calls at hcalls
      rw [Tour.andThen_of_goOn hgo]
      constructor
      · intro hun
        obtain ⟨hc, hs, hh⟩ := hn.of_unstopped hun
        refine ⟨?_, hs, hh⟩
        rw [hc, hcalls, List.append_assoc]
      · intro hstop
        obtain ⟨cs, hcs, hc⟩ := hn.of_stopped hstop
        refine ⟨t.calls ++ cs, (List.prefix_append_right_inj _).2 hcs, ?_⟩
        rw [hc, hcalls, List.append_assoc]
  · rw [Stretch.andThen_some]
    constructor
    · intro hun
      obtain ⟨hcalls, hstate, hhalt⟩ := hr.of_unstopped hun
      have hne : t.verdict ≠ .goOn := by
        intro hgo
        rw [Verdict.halt?_eq_none_iff.2 hgo] at hhalt
        cases hhalt
      rw [Tour.andThen_of_ne_goOn hne]
      exact ⟨hcalls, hstate, hhalt⟩
    · intro hstop
      obtain ⟨cs, hcs, hc⟩ := hr.of_stopped hstop
      exact ⟨cs, hcs.trans (Tour.calls_prefix_andThen t tnext), hc⟩

/-- A walk that begins stopped makes no call. -/
theorem idles_walk (g : Game σ φ) (h : Host α φ) (ops : List Op) {w : World σ φ α}
    (hw : w.stopped = true) : Idles w (walk g h ops w) := by
  rcases walk_of_stopped g h ops hw with hr | hr <;> rw [hr] <;> exact ⟨hw, rfl⟩

/-- A round that begins stopped makes no call. -/
theorem idles_round (g : Game σ φ) (h : Host α φ) (body : List Op) {w : World σ φ α}
    (hw : w.stopped = true) : round g h body w = (w.tell h .yielded, some .stopped) := by
  have hstop : (w.tell h .yielded).stopped = true := World.tell_stopped_of_stopped h _ hw
  rw [round, if_pos hstop]

/-- Rounds that begin stopped make no call. -/
theorem idles_repeatedly (g : Game σ φ) (h : Host α φ) (body : List Op) (n : Nat)
    {w : World σ φ α} (hw : w.stopped = true) : Idles w (repeatedly (round g h body) n w) := by
  cases n with
  | zero => exact ⟨hw, rfl⟩
  | succ n =>
    rw [repeatedly_succ', idles_round g h body hw]
    exact ⟨World.tell_stopped_of_stopped h _ hw, World.calls_tell_of_none h rfl w⟩

/-- Performing an announced instruction makes its two calls, stopped or not. -/
theorem calls_perform (g : Game σ φ) (h : Host α φ) {op : Op} (hop : op.isLoop = false)
    (w : World σ φ α) :
    (perform g h op (w.tell h (.step op))).1.calls = w.calls ++ op.calls := by
  have hacts : ∀ m ∈ (g.apply op w.state).acts.map Act.moment, m.call? = none := by
    intro m hm
    obtain ⟨a, -, rfl⟩ := List.mem_map.1 hm
    exact Act.call?_moment a
  have hcalls : (applied g h op (w.tell h (.step op))).calls = w.calls ++ op.calls := by
    rw [applied, World.tell_state, World.calls_put, World.calls_tellAll h hacts,
      World.calls_tell, World.calls_tell]
    simp [Moment.call?, Op.calls, hop]
  rw [perform_eq, World.tell_state]
  cases (g.apply op w.state).verdict.halt? with
  | some halt => exact hcalls
  | none =>
    rcases pause_eq h op (applied g h op (w.tell h (.step op))) with hp | ⟨-, d, hp⟩
    · rw [Stretch.andThen_none, hp, hcalls]
    · rw [Stretch.andThen_none, hp, World.calls_tell_of_none h rfl, hcalls]

/-- Performing an instruction follows the tour of it. -/
theorem follows_perform (g : Game σ φ) (h : Host α φ) {op : Op} (hop : op.isLoop = false)
    (w : World σ φ α) :
    Follows (g.take op w.state) w (perform g h op (w.tell h (.step op))) := by
  have hcalls := calls_perform g h hop w
  suffices hrest : (perform g h op (w.tell h (.step op))).1.state = (g.apply op w.state).state ∧
      (perform g h op (w.tell h (.step op))).2 = (g.apply op w.state).verdict.halt? by
    rw [g.take_of_not_isLoop hop]
    exact .of_calls hcalls hrest.1 hrest.2
  rw [perform_eq, World.tell_state]
  cases (g.apply op w.state).verdict.halt? with
  | some halt => exact ⟨rfl, rfl⟩
  | none =>
    refine ⟨?_, rfl⟩
    rcases pause_eq h op (applied g h op (w.tell h (.step op))) with hp | ⟨-, d, hp⟩ <;>
      rw [Stretch.andThen_none, hp] <;> rfl

/-- If a body follows a tour, its rounds follow as many of it. -/
theorem follows_repeatedly (g : Game σ φ) (h : Host α φ) {body : List Op}
    (hbody : ∀ w : World σ φ α, w.stopped = false →
      Follows (g.tour (Op.unrolledAll body) w.state) w (walk g h body w))
    (n : Nat) {w : World σ φ α} (hw : w.stopped = false) :
    Follows (g.tour (List.replicate n (Op.unrolledAll body)).flatten w.state) w
      (repeatedly (round g h body) n w) := by
  induction n generalizing w with
  | zero => exact follows_stay w
  | succ n ih =>
    have hround : Follows (g.tour (Op.unrolledAll body) w.state) w (round g h body w) := by
      have hcalls : (w.tell h .yielded).calls = w.calls := World.calls_tell_of_none h rfl w
      rw [round]
      split
      · rename_i hstop
        constructor
        · intro hun
          exact absurd (hun.symm.trans hstop) (by simp)
        · intro _
          refine ⟨[], List.nil_prefix, ?_⟩
          rw [hcalls, List.append_nil]
      · rename_i hun
        have hv := hbody (w.tell h .yielded) (Bool.not_eq_true _ ▸ hun)
        rw [World.tell_state] at hv
        exact ⟨hcalls ▸ hv.of_unstopped, hcalls ▸ hv.of_stopped⟩
    rw [repeatedly_succ', List.replicate_succ, List.flatten_cons, Game.tour_append]
    exact hround.andThen (fun v hv => idles_repeatedly g h body n hv) fun v hv => ih hv

/-- **A walk follows the tour of its unrolling.** -/
theorem follows_walk (g : Game σ φ) (h : Host α φ) (ops : List Op) :
    ∀ w : World σ φ α, w.stopped = false →
      Follows (g.tour (Op.unrolledAll ops) w.state) w (walk g h ops w) := by
  refine Op.listInduction
    (P := fun ops => ∀ w : World σ φ α, w.stopped = false →
      Follows (g.tour (Op.unrolledAll ops) w.state) w (walk g h ops w))
    (Q := fun op => ∀ w : World σ φ α, w.stopped = false →
      Follows (g.tour op.unrolled w.state) w (walkOp g h op w)) ?plain ?loop ?nil ?cons ops
  case plain =>
    intro op hop w hw
    rw [walkOp_of_not_isLoop g h hop hw, Op.unrolled_of_not_isLoop hop, Game.tour_singleton]
    exact follows_perform g h hop w
  case loop =>
    intro times body id ih w hw
    have hannounced : Follows (g.take (.loop times body id) w.state) w
        (w.tell h (.step (.loop times body id)), none) := by
      have hcalls := World.calls_tell h (.step (.loop times body id)) w
      exact .of_calls hcalls rfl rfl
    rw [walkOp_loop g h times body id hw, Op.unrolled, Game.tour_cons]
    show Follows _ w (Stretch.andThen (w.tell h (.step (.loop times body id)), none)
      (repeatedly (round g h body) times.repetitions))
    exact hannounced.andThen (fun v hv => idles_repeatedly g h body _ hv)
      fun v hv => follows_repeatedly g h ih _ hv
  case nil =>
    intro w _
    exact follows_stay w
  case cons =>
    intro op ops hop hops w hw
    rw [walk_cons, Op.unrolledAll, Game.tour_append]
    exact (hop w hw).andThen (fun v hv => idles_walk g h ops hv) hops

/-! ## Whole runs -/

theorem calls_launch (g : Game σ φ) (h : Host α φ) (initial : σ) (host : α) :
    (launch g h initial host).calls = [] := by
  have hframes : ∀ m ∈ (g.reset initial).1.map Moment.shown, m.call? = none := by
    intro m hm
    obtain ⟨frame, -, rfl⟩ := List.mem_map.1 hm
    rfl
  rw [launch_eq, World.calls_tell_of_none h rfl, World.calls_enter,
    World.calls_tell_of_none h rfl, World.calls_tellAll h hframes]
  rfl

theorem state_launch (g : Game σ φ) (h : Host α φ) (initial : σ) (host : α) :
    (launch g h initial host).state = (g.reset initial).2 := by
  rw [launch_eq]
  simp

theorem call?_of_mem_moments {e : Ending} {m : Moment φ} (hm : m ∈ e.moments) :
    m.call? = none := by
  cases e <;> simp only [Ending.moments, List.mem_cons, List.not_mem_nil, or_false] at hm
  case done => rcases hm with rfl | rfl <;> rfl
  all_goals subst hm; rfl

/-- The calls of a run are those of its walk. -/
theorem calls_run (g : Game σ φ) (h : Host α φ) (p : Program) (initial : σ) (host : α) :
    (run g h p initial host).calls = (walk g h p.ops (launch g h initial host)).1.calls := by
  rw [run_eq]
  exact World.calls_tellAll h (fun m hm => call?_of_mem_moments hm) _

theorem state_run (g : Game σ φ) (h : Host α φ) (p : Program) (initial : σ) (host : α) :
    (run g h p initial host).state = (walk g h p.ops (launch g h initial host)).1.state := by
  rw [run_eq]
  exact World.tellAll_state h _ _

/-- No stop was asked for in time exactly if the walk was not stopped. -/
theorem unstopped_run_iff (g : Game σ φ) (h : Host α φ) (p : Program) (initial : σ) (host : α) :
    (run g h p initial host).Unstopped ↔
      (walk g h p.ops (launch g h initial host)).1.stopped = false := by
  set r := walk g h p.ops (launch g h initial host) with hr
  have hwalk : r.1.Remembers := remembers_walk g h p.ops (remembers_launch g h initial host)
  have hend : (r.conclude h).Remembers := (hwalk.enter .finished).tellAll h _
  rw [World.Remembers, Stretch.conclude, World.stopped_tellAll_of_ne_walking h _ (by simp),
    World.enter_stopped] at hend
  rw [run_eq, Report.Unstopped, ← hr, hend, List.any_eq_false]
  simp only [Bool.not_eq_true]
  rfl

/-! ### Hosts that never ask for a stop -/

theorem stopped_tellAll_of_patient {h : Host α φ} (hh : ∀ a phase m, (h.react a phase m).2 = false)
    (ms : List (Moment φ)) (w : World σ φ α) : (w.tellAll h ms).stopped = w.stopped := by
  induction ms generalizing w with
  | nil => rfl
  | cons m ms ih =>
    rw [World.tellAll_cons, ih, World.stopped_tell, World.effective_entry, hh, Bool.false_and,
      Bool.or_false]

/-- A run is not stopped if nobody asks. -/
theorem unstopped_of_patient (g : Game σ φ) {h : Host α φ}
    (hh : ∀ a phase m, (h.react a phase m).2 = false) (p : Program) (initial : σ) (host : α) :
    (run g h p initial host).Unstopped := by
  have htell : ∀ m (w : World σ φ α), (w.tell h m).stopped = w.stopped := fun m w =>
    stopped_tellAll_of_patient hh [m] w
  rw [unstopped_run_iff]
  refine walk_induction (C := fun r => r.1.stopped = false) (fun _ hv _ => hv)
    (fun v _ _ _ hv _ => (htell _ v).trans hv) (fun v hv => (htell _ v).trans hv)
    (fun op v _ hv _ => ?_) p.ops ?_
  · rw [perform_eq]
    refine Stretch.andThen_keeps (C := fun r => r.1.stopped = false) ?_ fun v hv => ?_
    · rw [applied, World.put_stopped, stopped_tellAll_of_patient hh, htell, htell]
      exact hv
    · rcases pause_eq h op v with hp | ⟨-, d, hp⟩
      · rw [hp]; exact hv
      · rw [hp, htell]; exact hv
  · rw [launch_eq, htell, World.enter_stopped, htell, stopped_tellAll_of_patient hh,
      World.fresh_stopped]

/-! ### Runs and tours -/

/-- The tour of a whole program. -/
def programTour (g : Game σ φ) (p : Program) (initial : σ) : Tour σ :=
  g.tour (Op.unrolledAll p.ops) (g.reset initial).2

/-- A run that was not stopped is the tour of its program. -/
theorem run_of_unstopped (g : Game σ φ) (h : Host α φ) (p : Program) (initial : σ) (host : α)
    (hun : (run g h p initial host).Unstopped) :
    (run g h p initial host).calls = (programTour g p initial).calls ∧
      (run g h p initial host).state = (programTour g p initial).state ∧
      (run g h p initial host).ending = (programTour g p initial).verdict.ending := by
  have hwalk := (unstopped_run_iff g h p initial host).1 hun
  have hlaunch : (launch g h initial host).stopped = false := by
    cases hl : (launch g h initial host).stopped with
    | false => rfl
    | true => exact absurd (hwalk.symm.trans (idles_walk g h p.ops hl).1) (by simp)
  obtain ⟨hcalls, hstate, hhalt⟩ := (follows_walk g h p.ops _ hlaunch).of_unstopped hwalk
  rw [calls_launch, List.nil_append, state_launch] at hcalls
  rw [state_launch] at hstate hhalt
  refine ⟨(calls_run g h p initial host).trans hcalls,
    (state_run g h p initial host).trans hstate, ?_⟩
  rw [run_eq]
  show Stretch.ending (walk g h p.ops (launch g h initial host)) = _
  rw [Stretch.ending, hhalt, programTour, hwalk]
  cases (g.tour (Op.unrolledAll p.ops) (g.reset initial).2).verdict <;> rfl

/-- However a run is stopped, its calls begin the tour of its program. -/
theorem calls_run_prefix (g : Game σ φ) (h : Host α φ) (p : Program) (initial : σ) (host : α) :
    (run g h p initial host).calls <+: (programTour g p initial).calls := by
  rw [calls_run, programTour, ← state_launch g h initial host]
  cases hl : (launch g h initial host).stopped with
  | true =>
    rw [(idles_walk g h p.ops hl).2, calls_launch]
    exact List.nil_prefix
  | false =>
    have hfollows := follows_walk g h p.ops _ hl
    cases hw : (walk g h p.ops (launch g h initial host)).1.stopped with
    | false =>
      have hcalls := (hfollows.of_unstopped hw).1
      rw [calls_launch, List.nil_append] at hcalls
      exact hcalls ▸ List.prefix_rfl
    | true =>
      obtain ⟨cs, hcs, hc⟩ := hfollows.of_stopped hw
      rw [hc, calls_launch, List.nil_append]
      exact hcs

end Run

/-! ## What a tour is -/

namespace Game

variable {σ φ : Type}

/-- The state after applying, in order, those of some instructions that are no loops. -/
def after (g : Game σ φ) (ops : List Op) (s : σ) : σ :=
  (ops.filter fun op => !op.isLoop).foldl (fun s op => (g.apply op s).state) s

/-- The game goes on after each of some instructions, applied in order. -/
def GoesThrough (g : Game σ φ) (ops : List Op) (s : σ) : Prop :=
  ∀ before op behind, ops = before ++ op :: behind → op.isLoop = false →
    (g.apply op (g.after before s)).verdict = .goOn

@[simp] theorem after_nil (g : Game σ φ) (s : σ) : g.after [] s = s := rfl

theorem after_cons (g : Game σ φ) (op : Op) (ops : List Op) (s : σ) :
    g.after (op :: ops) s = g.after ops (g.take op s).state := by
  cases hop : op.isLoop <;> simp [after, take, hop]

theorem after_concat (g : Game σ φ) {op : Op} (hop : op.isLoop = false) (ops : List Op) (s : σ) :
    g.after (ops ++ [op]) s = (g.apply op (g.after ops s)).state := by
  rw [after, List.filter_append, List.foldl_append]
  simp [after, hop]

theorem calls_take (g : Game σ φ) (op : Op) (s : σ) : (g.take op s).calls = op.calls := by
  rw [take]
  split <;> rfl

theorem goesThrough_nil (g : Game σ φ) (s : σ) : g.GoesThrough [] s := by
  intro before op behind h
  simp at h

theorem GoesThrough.cons {g : Game σ φ} {op : Op} {ops : List Op} {s : σ}
    (hop : (g.take op s).verdict = .goOn) (hops : g.GoesThrough ops (g.take op s).state) :
    g.GoesThrough (op :: ops) s := by
  intro before x behind hsplit hx
  cases before with
  | nil =>
    obtain ⟨rfl, -⟩ := List.cons.inj hsplit
    rw [g.take_of_not_isLoop hx] at hop
    exact hop
  | cons y before =>
    obtain ⟨rfl, htail⟩ := List.cons.inj hsplit
    rw [after_cons]
    exact hops before x behind htail hx

/-- **A tour goes along a list up to the first instruction after which the game does not go
on**, and all the way if there is none. -/
theorem tour_spec (g : Game σ φ) (ops : List Op) (s : σ) :
    ∃ walked, walked <+: ops ∧ (g.tour ops s).calls = walked.flatMap Op.calls ∧
      (g.tour ops s).state = g.after walked s ∧
      ((walked = ops ∧ g.GoesThrough walked s ∧ (g.tour ops s).verdict = .goOn) ∨
        ∃ before last, walked = before ++ [last] ∧ g.GoesThrough before s ∧
          last.isLoop = false ∧ (g.tour ops s).verdict ≠ .goOn ∧
          (g.tour ops s).verdict = (g.apply last (g.after before s)).verdict) := by
  induction ops generalizing s with
  | nil => exact ⟨[], List.prefix_rfl, rfl, rfl, Or.inl ⟨rfl, g.goesThrough_nil s, rfl⟩⟩
  | cons op ops ih =>
    rw [tour_cons]
    by_cases hgo : (g.take op s).verdict = .goOn
    · obtain ⟨walked, hpre, hcalls, hstate, hend⟩ := ih (g.take op s).state
      rw [Tour.andThen_of_goOn hgo]
      refine ⟨op :: walked, (List.prefix_cons_inj op).2 hpre, ?_, ?_, ?_⟩
      · rw [List.flatMap_cons, calls_take, hcalls]
      · rw [after_cons, hstate]
      · rcases hend with ⟨rfl, hthrough, hv⟩ | ⟨before, last, rfl, hthrough, hlast, hne, hv⟩
        · exact Or.inl ⟨rfl, hthrough.cons hgo, hv⟩
        · refine Or.inr ⟨op :: before, last, rfl, hthrough.cons hgo, hlast, hne, ?_⟩
          rw [after_cons]
          exact hv
    · have hop : op.isLoop = false := by
        cases hl : op.isLoop with
        | false => rfl
        | true => exact absurd (by simp [take, hl]) hgo
      rw [Tour.andThen_of_ne_goOn hgo, g.take_of_not_isLoop hop]
      rw [g.take_of_not_isLoop hop] at hgo
      refine ⟨[op], ⟨ops, rfl⟩, (List.append_nil _).symm, ?_, Or.inr ⟨[], op, rfl,
        g.goesThrough_nil s, hop, hgo, rfl⟩⟩
      rw [after_cons, after_nil, g.take_of_not_isLoop hop]

end Game

/-- A program with a loop in a loop. -/
def nestedLoops : Program :=
  ⟨[.start "s", .loop (.ofInt 2) [.wait (.ofInt 5) "w", .loop (.ofInt 3) [.move 1 "m"] "i"] "o",
    .turn .left "t"]⟩

/-- A rehearsal that is won at the move. -/
def wonAtMove : Game (List String) Empty := Rehearsal.game { winAt := some "m" }

/-- The rehearsal that is won inside the two loops, while its host waits for nothing. -/
def wonRehearsal : Report (List String) Empty (Timetable Empty) :=
  run wonAtMove (Timetable.host Empty) nestedLoops Rehearsal.stale {}

end BlockRobot
