import BlockRobot.Proofs.Run.Verdicts
import Mathlib.Data.List.Chain

/-!
# What the screen shows

Some games have their own states for frames, and show a state whenever they have changed it.
Of such a game the last frame of a run is the state at its end, however the run ends
(`Run.getLast?_framesShown`): it is enough that the last frame of each single instruction is
the state it leaves (`Game.ShowsStates`), where an instruction that shows nothing must leave the
state as it is.

The frame that stands on the screen when an instruction begins is then the state in which it
begins.  So what can be said of two frames that follow one another need only be said of the
frames of one instruction, that state being taken as the first of them
(`Run.isChain_framesShown`).
-/

namespace BlockRobot

namespace Game

variable {σ : Type}

/-- A game that shows the states it comes to: the last frame of an instruction is the state
behind it, and an instruction without a frame leaves the state as it is. -/
def ShowsStates (g : Game σ σ) : Prop :=
  ∀ op s, op.isLoop = false → (g.apply op s).frames.getLast?.getD s = (g.apply op s).state

/-- The last frame along a list of instructions is the state behind them. -/
theorem ShowsStates.getLast?_framesAlong {g : Game σ σ} (hg : g.ShowsStates) {ops : List Op}
    (hplain : ∀ op ∈ ops, op.isLoop = false) (s : σ) :
    (g.framesAlong ops s).getLast?.getD s = g.after ops s := by
  induction ops generalizing s with
  | nil => rfl
  | cons op ops ih =>
    have hop : op.isLoop = false := hplain op (List.mem_cons_self ..)
    have hrest := ih (fun x hx => hplain x (List.mem_cons_of_mem op hx)) (g.apply op s).state
    rw [framesAlong, after_cons, g.take_of_not_isLoop hop, ← hrest, List.getLast?_append,
      Option.getD_or, hg op s hop]

/-- The frames along a list of instructions are in a relation one to the next, the state in front
of them included, if those of each instruction are. -/
theorem ShowsStates.isChain_framesAlong {g : Game σ σ} (hg : g.ShowsStates) {R : σ → σ → Prop}
    (hR : ∀ op s, op.isLoop = false → (s :: (g.apply op s).frames).IsChain R) {ops : List Op}
    (hplain : ∀ op ∈ ops, op.isLoop = false) (s : σ) : (s :: g.framesAlong ops s).IsChain R := by
  induction ops generalizing s with
  | nil => exact .singleton s
  | cons op ops ih =>
    have hop : op.isLoop = false := hplain op (List.mem_cons_self ..)
    have hrest := List.isChain_cons.1
      (ih (fun x hx => hplain x (List.mem_cons_of_mem op hx)) (g.apply op s).state)
    -- the last frame before those of the rest is the state in which the rest begins
    have hlast : (s :: (g.apply op s).frames).getLast? = some (g.apply op s).state := by
      rw [List.getLast?_cons, hg op s hop]
    rw [framesAlong, ← List.cons_append]
    refine (hR op s hop).append hrest.2 fun x hx y hy => ?_
    rw [hlast] at hx
    exact Option.some.inj hx ▸ hrest.1 y hy

end Game

namespace Run

variable {σ α : Type}

/-- **The last frame of a run is the state at its end**, if the reset shows the state it comes
to and every instruction does. -/
theorem getLast?_framesShown {g : Game σ σ} (hg : g.ShowsStates) (h : Host α σ) (p : Program)
    (initial : σ) (host : α) (hreset : (g.reset initial).1.getLast? = some (g.reset initial).2) :
    (framesShown (run g h p initial host).log).getLast? =
      some (run g h p initial host).state := by
  have hplain : ∀ op ∈ applications (run g h p initial host).log, op.isLoop = false :=
    fun _ hop => isLoop_eq_false_of_mem_applications hop
  have hlast := hg.getLast?_framesAlong hplain (g.reset initial).2
  rw [state_run_eq_after, frames_run, List.getLast?_append, hreset, Option.or_some, hlast]

/-- **The frames of a run are in a relation one to the next**, if the reset shows the state it
comes to and no other, and the frames of each instruction are, behind the state it finds. -/
theorem isChain_framesShown {g : Game σ σ} (hg : g.ShowsStates) {R : σ → σ → Prop}
    (hR : ∀ op s, op.isLoop = false → (s :: (g.apply op s).frames).IsChain R) (h : Host α σ)
    (p : Program) (initial : σ) (host : α)
    (hreset : (g.reset initial).1 = [(g.reset initial).2]) :
    (framesShown (run g h p initial host).log).IsChain R := by
  have hplain : ∀ op ∈ applications (run g h p initial host).log, op.isLoop = false :=
    fun _ hop => isLoop_eq_false_of_mem_applications hop
  rw [frames_run, hreset]
  exact hg.isChain_framesAlong hR hplain (g.reset initial).2

end Run

end BlockRobot
