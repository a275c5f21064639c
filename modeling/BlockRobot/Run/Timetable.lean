import BlockRobot.Run

/-!
# A host with a clock

A timetable is a host that keeps a clock and a list of what to do at which time: to
stop the run, or to ask whether it is still running.  It can also stop the run at
an event, the first, second or later one of a name.  It writes a log of everything
it is told and everything it does.

## The clock

The clock counts milliseconds and moves only while everything sleeps: when the game
sleeps, during a pause, and after the end of the run, when the rest of the list is
carried out.  A sleep that begins at `t` ends a whole number of milliseconds later
(`Duration.ticks`).  What is due before the end of a sleep is done at its time; a
stop during a pause ends the pause there and then, but everything due at that same
time is still done first.
-/

namespace BlockRobot

/-- What a timetable can do with a run. -/
inductive Command where
  | stop
  | query
deriving DecidableEq

/-- A line of the log.  `running` says whether the run was running, where there was
one to ask. -/
inductive Line (φ : Type) where
  | status (line : StatusLine) (running : Option Bool)
  | step (id : String)
  | apply (id kind : String)
  | draw (surface : String) (frame : φ)
  | done (running : Option Bool)
  | error (i : Interruption) (running : Option Bool)
  | stop (running : Option Bool)
  | query (running : Option Bool)

namespace Line

variable {φ : Type}

/-- The name of the event of a line. -/
def eventName : Line φ → String
  | status _ _ => "status"
  | step _ => "step"
  | apply _ _ => "apply"
  | draw _ _ => "draw"
  | done _ => "done"
  | error _ _ => "error"
  | stop _ => "stop"
  | query _ => "query"

/-- The id an event carries. -/
def id? : Line φ → Option String
  | step id => some id
  | apply id _ => some id
  | draw surface _ => some surface
  | _ => none

end Line

/-- A stop at the nth event of a name, or of a name and an id. -/
structure Trigger where
  event : String
  id : Option String
  nth : Nat

namespace Trigger

variable {φ : Type}

/-- Whether a line is one of the events a trigger counts. -/
def counts (t : Trigger) (line : Line φ) : Bool :=
  t.event = line.eventName && (t.id.isNone || t.id = line.id?)

end Trigger

/-- A host with a clock: what it logs, when it acts, and where it has got to. -/
structure Timetable (φ : Type) where
  /-- Whether notifications are logged. -/
  notified : Bool := true
  /-- Whether the beginning of each application is logged. -/
  watchesGame : Bool := false
  /-- The surface on which frames are drawn; without one they are not. -/
  surface : Option String := none
  triggers : List Trigger := []
  now : Nat := 0
  /-- What is still to be done, with the times for it. -/
  due : List (Nat × Command) := []
  /-- The log with the time of each line, newest first. -/
  log : List (Nat × Line φ) := []

/-- What can be known of `running` in a phase. -/
def Phase.running? : Phase → Option Bool
  | unlaunched => none
  | walking => some true
  | finished => some false

namespace Timetable

variable {φ : Type}

/-- Writes a line. -/
def note (t : Timetable φ) (line : Line φ) : Timetable φ :=
  { t with log := (t.now, line) :: t.log }

/-- How many lines of the log a trigger counts. -/
def countFor (t : Timetable φ) (trigger : Trigger) : Nat :=
  t.log.countP fun entry => trigger.counts entry.2

/-- Whether the line just written is one at which a trigger stops the run. -/
def triggered (t : Timetable φ) (line : Line φ) : Bool :=
  t.triggers.any fun trigger => trigger.counts line && t.countFor trigger = trigger.nth

/-- Writes the line of an event, and stops the run if a trigger says so.  A stop is
logged also where there is no run to stop, before it is handed over or after its end. -/
def record (t : Timetable φ) (phase : Phase) (line : Line φ) : Timetable φ × Bool :=
  let t := t.note line
  if t.triggered line then (t.note (.stop phase.running?), true) else (t, false)

/-- Does one thing on the list. -/
def perform (t : Timetable φ) (phase : Phase) : Command → Timetable φ
  | .stop => t.note (.stop phase.running?)
  | .query => t.note (.query phase.running?)

/-- Does what is due until a time, and says whether a stop was among it.  If the run
can be woken, a stop wakes it, and only what is due by then is still done. -/
def sleep (phase : Phase) (wakes : Bool) : List (Nat × Command) → (until_ : Nat) → (stop : Bool) →
    Timetable φ → Timetable φ × Bool
  | [], until_, stop, t => ({ t with now := max t.now until_, due := [] }, stop)
  | (at_, command) :: due, until_, stop, t =>
    let time := max t.now at_
    if time ≤ until_ then
      let t := perform { t with now := time } phase command
      match command with
      | .stop => sleep phase wakes due (if wakes then time else until_) true t
      | .query => sleep phase wakes due until_ stop t
    else ({ t with now := max t.now until_, due := (at_, command) :: due }, stop)

/-- Sleeps from now for a duration. -/
def sleepFor (t : Timetable φ) (phase : Phase) (wakes : Bool) (d : Duration) : Timetable φ × Bool :=
  sleep phase wakes t.due (t.now + d.ticks) false t

/-- Logs a notification, if notifications are logged. -/
def notify (t : Timetable φ) (phase : Phase) (line : Line φ) : Timetable φ × Bool :=
  if t.notified then t.record phase line else (t, false)

/-- What a timetable does at a moment of the run. -/
def react (t : Timetable φ) (phase : Phase) : Moment φ → Timetable φ × Bool
  | .status line => t.notify phase (.status line phase.running?)
  | .launched => t.sleepFor phase false ⟨0⟩
  | .step op => t.notify phase (.step op.id)
  | .applying op =>
    if t.watchesGame then t.record phase (.apply op.id op.kindName) else (t, false)
  | .shown frame =>
    match t.surface with
    | some surface => t.record phase (.draw surface frame)
    | none => (t, false)
  | .slept d => t.sleepFor phase false d
  | .yielded => (t, false)
  | .paused d => t.sleepFor phase true d
  | .done => t.notify phase (.done phase.running?)
  | .interrupted i => t.notify phase (.error i phase.running?)

/-- Timetables as hosts. -/
def host (φ : Type) : Host (Timetable φ) φ := ⟨react⟩

/-- Does everything still on the list when the run is over, each thing at its time. -/
def carryOut : List (Nat × Command) → Timetable φ → Timetable φ
  | [], t => { t with due := [] }
  | (at_, command) :: due, t => carryOut due (perform { t with now := max t.now at_ } .finished command)

/-- Ends the watch: the list is carried out, and a last stop is called, which comes
too late. -/
def close (t : Timetable φ) : Timetable φ :=
  let t := carryOut t.due t
  if t.notified then t.note (.stop (some false)) else t

/-- The lines of the log in order, each with its time. -/
def lines (t : Timetable φ) : List (Nat × Line φ) := t.log.reverse

end Timetable

end BlockRobot
