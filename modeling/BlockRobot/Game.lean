import BlockRobot.Duration
import BlockRobot.Json.Record
import BlockRobot.Program

/-!
# Games

A game gives instructions a meaning: it says what one instruction does to the state
of the game.  It never sees a loop, for running loops is the business of the run
(`Run`), and it knows nothing of the host that watches and may stop the run.

Applying an instruction can take time and can be seen.  A `Response` lists these
*acts* in order, then gives the state left behind and the verdict: to go on, or to
end the run, by design (`Outcome`) or because something failed.  Whatever was done
to the state before the end is kept.
-/

namespace BlockRobot

/-- How a game ends a run by design. -/
inductive Outcome where
  | win
  | collision
deriving DecidableEq

/-- The short name by which a host knows an outcome. -/
def Outcome.name : Outcome → String
  | win => "WIN"
  | collision => "CHOQUE"

/-- Something that happens while an instruction is applied. -/
inductive Act (φ : Type) where
  /-- A frame is shown. -/
  | shown (frame : φ)
  /-- The game sleeps. -/
  | slept (d : Duration)

/-- Whether the run goes on after an instruction. -/
inductive Verdict where
  | goOn
  | ended (o : Outcome)
  | failed (message : String)
  /-- The game broke down and has no state any more. -/
  | crashed
deriving DecidableEq

/-- What applying an instruction does. -/
structure Response (σ φ : Type) where
  acts : List (Act φ)
  state : σ
  verdict : Verdict

/-- A game with states `σ` and frames `φ`. -/
structure Game (σ φ : Type) where
  /-- Puts a state back to where runs begin, with the frames shown on the way. -/
  reset : σ → List φ × σ
  /-- Applies an instruction that is no loop. -/
  apply : Op → σ → Response σ φ

namespace Response

variable {σ φ : Type}

/-- A response that leaves a state without being noticed. -/
def quiet (s : σ) : Response σ φ := ⟨[], s, .goOn⟩

/-- A response that shows the state it leaves. -/
def showing (s : σ) (verdict : Verdict) : Response σ σ := ⟨[.shown s], s, verdict⟩

/-- The frames shown. -/
def frames (r : Response σ φ) : List φ :=
  r.acts.filterMap fun
    | .shown frame => some frame
    | .slept _ => none

/-- The answer to a loop, which no game can apply. -/
def loopRefused (id : String) (s : σ) : Response σ φ :=
  ⟨[], s, .failed ("repeat block " ++ id ++ " must be unrolled by the interpreter")⟩

end Response

/-! ## Status -/

/-- Where a game stands, as shown to the learner. -/
inductive Status where
  | idle
  | running
  | win
  | error
deriving DecidableEq

namespace Status

/-- The statuses and their names. -/
def known : List (String × Status) :=
  [("idle", idle), ("running", running), ("win", win), ("error", error)]

/-- The name of a status. -/
def name : Status → String
  | idle => "idle"
  | running => "running"
  | win => "win"
  | error => "error"

/-- A status as a value. -/
def toJson (s : Status) : Json := .text s.name

/-- Reads a status. -/
def reader : Reader Status := .choice known

end Status

/-! ## What learners are told -/

/-- Told on reaching the goal. -/
def winMessage : String := "¡Llegaste a la meta!"

/-- Told on running into a wall. -/
def wallMessage : String := "¡Chocaste con una pared!"

/-- Told on leaving the board. -/
def edgeMessage : String := "¡Te saliste del tablero!"

end BlockRobot
