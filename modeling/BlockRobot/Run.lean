import BlockRobot.Double.Rounding
import BlockRobot.Game

/-!
# Running a program

A run walks the instructions of a program in order.  Each is announced before it is
done; a loop then walks its body as often as it says, and any other instruction is
applied by the game, a wait pausing afterwards.

## The host

Whoever started the run watches it and may stop it.  A `Host` is told of each
`Moment` of the run as it comes, and answers whether it asks for a stop there.  This
one question covers every way in which a stop can fall: from within a notification,
before the run has taken its first step, while the game sleeps, between two rounds
of a loop, or during a pause.  A host has a state of its own, so it can stop at the
hundredth moment or at a time of the clock; what a moment does to the clock is the
host's affair.

A stop counts only while the run is walking.  Before that nobody holds the run yet,
and after it there is nothing left to stop.

## Where a stop takes effect

The walk looks whether it has been stopped before each instruction, after the yield
before each round of a loop, and when it is through.  It does not look between the
announcement of an instruction and its application, so an instruction announced is
applied.  A pause ends at once when the run is stopped, and is not begun when it
has been.

## The end

When the walk is over the run is no longer walking, and only then is the host told
how it ended, by exactly one of three groups of moments: done and the status for
it, the status for stopped, or the error.  If the game has broken down there is
nothing more to tell.
-/

namespace BlockRobot

/-- What the status line says. -/
inductive StatusLine where
  | running
  | done
  | stopped
deriving DecidableEq

/-- The text of the status line. -/
def StatusLine.text : StatusLine → String
  | running => "Ejecutando..."
  | done => "Finalizado."
  | stopped => "Detenido."

/-- Why a run ended before its program did. -/
inductive Interruption where
  | outcome (o : Outcome)
  | failure (message : String)
deriving DecidableEq

namespace Interruption

/-- An interruption in words. -/
def text : Interruption → String
  | outcome o => o.name
  | failure message => message

/-- The outcome, if the game ended the run by design. -/
def outcome? : Interruption → Option Outcome
  | outcome o => some o
  | failure _ => none

end Interruption

/-- Whether a run can be stopped: not before it is handed over, only while it walks. -/
inductive Phase where
  | unlaunched
  | walking
  | finished
deriving DecidableEq

/-- What a host is told, in the order in which it happens. -/
inductive Moment (φ : Type) where
  /-- The status line changes. -/
  | status (line : StatusLine)
  /-- The run is handed over; its walk has not begun. -/
  | launched
  /-- An instruction is announced. -/
  | step (op : Op)
  /-- The game begins to apply an instruction. -/
  | applying (op : Op)
  /-- The game shows a frame. -/
  | shown (frame : φ)
  /-- The game sleeps, whether stopped or not. -/
  | slept (d : Duration)
  /-- The walk lets others have their turn before a round of a loop. -/
  | yielded
  /-- The walk pauses, at most so long. -/
  | paused (d : Duration)
  /-- The program is done. -/
  | done
  /-- The run was interrupted. -/
  | interrupted (i : Interruption)

/-- One who watches a run: told of a moment, it changes its state and says whether
it asks for a stop. -/
structure Host (α φ : Type) where
  react : α → Phase → Moment φ → α × Bool

/-- A line of the record of a run: the moment, the phase in which it fell, and
whether the host asked for a stop there. -/
structure Entry (φ : Type) where
  phase : Phase
  moment : Moment φ
  stop : Bool

/-- A run under way. -/
structure World (σ φ α : Type) where
  phase : Phase
  state : σ
  host : α
  /-- Whether a stop has been asked for while the run was walking. -/
  stopped : Bool
  /-- What has happened, newest first. -/
  log : List (Entry φ)

/-- How a run ended. -/
inductive Ending where
  | done
  | stopped
  | outcome (o : Outcome)
  | failed (message : String)
  | crashed
deriving DecidableEq

/-- Why a walk is left early. -/
inductive Halt where
  | stopped
  | interrupted (i : Interruption)
  | crashed
deriving DecidableEq

/-- What is known of a run that has ended. -/
structure Report (σ φ α : Type) where
  ending : Ending
  state : σ
  host : α
  /-- What has happened, in order. -/
  log : List (Entry φ)

namespace World

variable {σ φ α : Type}

/-- Tells the host of a moment. -/
def tell (h : Host α φ) (m : Moment φ) (w : World σ φ α) : World σ φ α :=
  let (host, stop) := h.react w.host w.phase m
  { w with
    host := host
    stopped := w.stopped || (stop && w.phase = .walking)
    log := ⟨w.phase, m, stop⟩ :: w.log }

@[simp] theorem tell_state (h : Host α φ) (m : Moment φ) (w : World σ φ α) :
    (w.tell h m).state = w.state := rfl

@[simp] theorem tell_phase (h : Host α φ) (m : Moment φ) (w : World σ φ α) :
    (w.tell h m).phase = w.phase := rfl

/-- A stop once asked for is never taken back. -/
theorem tell_stopped_of_stopped (h : Host α φ) (m : Moment φ) {w : World σ φ α}
    (hw : w.stopped = true) : (w.tell h m).stopped = true := by
  simp [tell, hw]

theorem tell_log (h : Host α φ) (m : Moment φ) (w : World σ φ α) :
    (w.tell h m).log = ⟨w.phase, m, (h.react w.host w.phase m).2⟩ :: w.log := rfl

/-- Tells the host of all acts of a response. -/
def tellActs (h : Host α φ) : List (Act φ) → World σ φ α → World σ φ α
  | [], w => w
  | .shown frame :: acts, w => tellActs h acts (w.tell h (.shown frame))
  | .slept d :: acts, w => tellActs h acts (w.tell h (.slept d))

/-- Tells the host of some frames. -/
def tellFrames (h : Host α φ) : List φ → World σ φ α → World σ φ α
  | [], w => w
  | frame :: frames, w => tellFrames h frames (w.tell h (.shown frame))

end World

namespace Verdict

/-- Why a walk is left after a verdict, if it is. -/
def halt? : Verdict → Option Halt
  | goOn => none
  | ended o => some (.interrupted (.outcome o))
  | failed message => some (.interrupted (.failure message))
  | crashed => some .crashed

end Verdict

namespace Run

variable {σ φ α : Type}

/-- A stretch of a walk: the world after it, and why the walk is left, if it is. -/
abbrev Stretch (σ φ α : Type) := World σ φ α × Option Halt

/-- Does something a number of times, unless the walk is left before. -/
def repeatedly (round : World σ φ α → Stretch σ φ α) : Nat → World σ φ α → Stretch σ φ α
  | 0, w => (w, none)
  | n + 1, w =>
    match round w with
    | (w, some halt) => (w, some halt)
    | (w, none) => repeatedly round n w

@[simp] theorem repeatedly_zero (round : World σ φ α → Stretch σ φ α) (w : World σ φ α) :
    repeatedly round 0 w = (w, none) := rfl

theorem repeatedly_succ_of_halt {round : World σ φ α → Stretch σ φ α} {n : Nat}
    {w v : World σ φ α} {halt : Halt} (h : round w = (v, some halt)) :
    repeatedly round (n + 1) w = (v, some halt) := by
  simp [repeatedly, h]

theorem repeatedly_succ {round : World σ φ α → Stretch σ φ α} {n : Nat} {w v : World σ φ α}
    (h : round w = (v, none)) : repeatedly round (n + 1) w = repeatedly round n v := by
  simp [repeatedly, h]

/-- Pauses after a wait, unless the run has been stopped or the wait takes no time. -/
def pause (h : Host α φ) (op : Op) (w : World σ φ α) : World σ φ α :=
  match op with
  | .wait ms _ =>
    let d := Duration.ofMilliseconds ms
    if w.stopped || d.nanoseconds = 0 then w else w.tell h (.paused d)
  | _ => w

/-- Applies an announced instruction that is no loop. -/
def perform (g : Game σ φ) (h : Host α φ) (op : Op) (w : World σ φ α) : Stretch σ φ α :=
  let w := w.tell h (.applying op)
  let r := g.apply op w.state
  let w := { w.tellActs h r.acts with state := r.state }
  match r.verdict.halt? with
  | some halt => (w, some halt)
  | none => (pause h op w, none)

mutual

/-- Walks instructions in order. -/
def walk (g : Game σ φ) (h : Host α φ) : List Op → World σ φ α → Stretch σ φ α
  | [], w => (w, none)
  | op :: ops, w =>
    match walkOp g h op w with
    | (w, some halt) => (w, some halt)
    | (w, none) => walk g h ops w

/-- Walks one instruction. -/
def walkOp (g : Game σ φ) (h : Host α φ) : Op → World σ φ α → Stretch σ φ α
  | .loop times body id, w =>
    if w.stopped then (w, some .stopped)
    else
      repeatedly
        (fun w =>
          let w := w.tell h .yielded
          if w.stopped then (w, some .stopped) else walk g h body w)
        times.repetitions (w.tell h (.step (.loop times body id)))
  | .start id, w =>
    if w.stopped then (w, some .stopped) else perform g h (.start id) (w.tell h (.step (.start id)))
  | .move steps id, w =>
    if w.stopped then (w, some .stopped)
    else perform g h (.move steps id) (w.tell h (.step (.move steps id)))
  | .turn side id, w =>
    if w.stopped then (w, some .stopped)
    else perform g h (.turn side id) (w.tell h (.step (.turn side id)))
  | .wait ms id, w =>
    if w.stopped then (w, some .stopped)
    else perform g h (.wait ms id) (w.tell h (.step (.wait ms id)))

end

@[simp] theorem walk_nil (g : Game σ φ) (h : Host α φ) (w : World σ φ α) :
    walk g h [] w = (w, none) := rfl

/-- A run that has been stopped begins no further instruction. -/
theorem walkOp_of_stopped (g : Game σ φ) (h : Host α φ) (op : Op) {w : World σ φ α}
    (hw : w.stopped = true) : walkOp g h op w = (w, some .stopped) := by
  cases op <;> simp [walkOp, hw]

/-- The world in which the walk begins: the game reset, the host told that the run
goes, and the run handed over. -/
def launch (g : Game σ φ) (h : Host α φ) (initial : σ) (host : α) : World σ φ α :=
  let (frames, state) := g.reset initial
  let w : World σ φ α := ⟨.unlaunched, state, host, false, []⟩
  let w := (w.tellFrames h frames).tell h (.status .running)
  { w with phase := .walking }.tell h .launched

/-- Ends a run: a stop that came during the last instruction still counts, and the
host is told how the run ended. -/
def finish (h : Host α φ) (stretch : Stretch σ φ α) : World σ φ α × Ending :=
  let (w, halt) := stretch
  let halt := halt <|> (if w.stopped then some .stopped else none)
  let w := { w with phase := .finished }
  match halt with
  | none => ((w.tell h .done).tell h (.status .done), .done)
  | some .stopped => (w.tell h (.status .stopped), .stopped)
  | some (.interrupted (.outcome o)) => (w.tell h (.interrupted (.outcome o)), .outcome o)
  | some (.interrupted (.failure m)) => (w.tell h (.interrupted (.failure m)), .failed m)
  | some .crashed => (w, .crashed)

end Run

/-- Runs a program. -/
def run {σ φ α : Type} (g : Game σ φ) (h : Host α φ) (p : Program) (initial : σ) (host : α) :
    Report σ φ α :=
  let (w, ending) := Run.finish h (Run.walk g h p.ops (Run.launch g h initial host))
  ⟨ending, w.state, w.host, w.log.reverse⟩

end BlockRobot
