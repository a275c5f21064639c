import BlockRobot.Proofs.Run.Tandem

/-!
# Runs in front of two hosts

A walk looks at its host through one hole only: whether a stop has been asked for.  So two
runs of one game in front of different hosts stay alike as long as the hosts agree on that.

`Likeness` is what a relation between the worlds of two such runs must keep, moment by
moment.  Such runs go in tandem (`Likeness.tandem`), so a likeness carries over to whole runs
(`Likeness.run`).

## Stops that are in vain

`Host.once` is a host that asks for one stop at most, the first one that counts.  It differs
from the host it is made from in all the stops asked for later, and in those asked for when
the run is not walking; and `run_once` says that this makes no difference.
-/

namespace BlockRobot

namespace Run

variable {σ φ α β : Type}

/-- A relation between the worlds of two runs of one game that every moment keeps, and that
shows in neither the state of the game nor the answer whether the run has been stopped. -/
structure Likeness (h : Host α φ) (h' : Host β φ)
    (R : World σ φ α → World σ φ β → Prop) : Prop where
  stopped : ∀ {w v}, R w v → w.stopped = v.stopped
  state : ∀ {w v}, R w v → w.state = v.state
  tell : ∀ m {w v}, R w v → R (w.tell h m) (v.tell h' m)
  put : ∀ s {w v}, R w v → R (w.put s) (v.put s)
  enter : ∀ p {w v}, R w v → R (w.enter p) (v.enter p)

variable {h : Host α φ} {h' : Host β φ} {R : World σ φ α → World σ φ β → Prop}

namespace Likeness

variable (hl : Likeness h h' R)

include hl

theorem tellAll (ms : List (Moment φ)) {w : World σ φ α} {v : World σ φ β} (hR : R w v) :
    R (w.tellAll h ms) (v.tellAll h' ms) := by
  induction ms generalizing w v with
  | nil => exact hR
  | cons m ms ih => exact ih (hl.tell m hR)

theorem pause (op : Op) {w : World σ φ α} {v : World σ φ β} (hR : R w v) :
    R (Run.pause h op w) (Run.pause h' op v) := by
  cases op with
  | wait ms id =>
    rw [Run.pause, Run.pause, hl.stopped hR]
    split
    · exact hR
    · exact hl.tell _ hR
  | _ => exact hR

theorem perform (g : Game σ φ) (op : Op) {w : World σ φ α} {v : World σ φ β} (hR : R w v) :
    Alike R (Run.perform g h op w) (Run.perform g h' op v) := by
  rw [perform_eq, perform_eq, applied, applied, ← hl.state hR]
  refine Alike.andThen ⟨?_, rfl⟩ fun hR => ⟨hl.pause op hR, rfl⟩
  exact hl.put _ (hl.tellAll _ (hl.tell _ hR))

/-- Two runs that are alike go in tandem, each instruction standing for itself. -/
theorem tandem (g : Game σ φ) : Tandem g g h h' id R where
  loop times body id := by rw [List.map_id]; rfl
  plain _ hop := hop
  stopped := hl.stopped
  step op _ _ hR := hl.tell (.step op) hR
  yielded hR := hl.tell .yielded hR
  perform op _ _ _ hR := hl.perform g op hR
  conclude e _ _ hR := hl.tellAll _ (hl.enter .finished hR)

/-- **A likeness carries over to runs**, which end in the same way. -/
theorem run (g : Game σ φ) (p : Program) (initial : σ) {host : α} {host' : β}
    (hR : R (World.fresh (g.reset initial).2 host) (World.fresh (g.reset initial).2 host')) :
    ∃ w v, R w v ∧
      BlockRobot.run g h p initial host =
        w.report (BlockRobot.run g h p initial host).ending ∧
      BlockRobot.run g h' p initial host' =
        v.report (BlockRobot.run g h p initial host).ending := by
  have hlaunch : R (launch g h initial host) (launch g h' initial host') := by
    rw [launch_eq, launch_eq]
    exact hl.tell _ (hl.enter _ (hl.tell _ (hl.tellAll _ hR)))
  have hrun := (hl.tandem g).run p hlaunch
  rwa [List.map_id] at hrun

end Likeness

end Run

/-! ## Stops that are in vain -/

/-- What the host was told in a run, and in which phase. -/
def Report.told {σ φ α : Type} (r : Report σ φ α) : List (Phase × Moment φ) :=
  r.log.map fun e => (e.phase, e.moment)

namespace Host

variable {α φ : Type}

/-- The host that asks for a stop where this one does for the first time while the run is
walking, and nowhere else. -/
def once (h : Host α φ) : Host (α × Bool) φ where
  react a phase m :=
    let r := h.react a.1 phase m
    let asks := r.2 && decide (phase = .walking) && !a.2
    ((r.1, a.2 || asks), asks)

end Host

namespace Run

variable {σ φ α : Type}

/-- A run in front of a host and one in front of the same host that asks once: the second
host knows whether the run has been stopped, and both are told the same. -/
structure OnceLike (w : World σ φ α) (v : World σ φ (α × Bool)) : Prop where
  phase : w.phase = v.phase
  state : w.state = v.state
  stopped : w.stopped = v.stopped
  host : v.host = (w.host, w.stopped)
  told : w.history.map (fun e => (e.phase, e.moment)) =
    v.history.map fun e => (e.phase, e.moment)

theorem likeness_once (h : Host α φ) :
    Likeness (σ := σ) h h.once OnceLike where
  stopped hR := hR.stopped
  state hR := hR.state
  tell m w v hR := by
    have hreact : h.once.react v.host v.phase m =
        (((h.react w.host w.phase m).1, (w.tell h m).stopped),
          (w.entry h m).effective && !w.stopped) := by
      rw [hR.host, ← hR.phase, World.stopped_tell, World.effective_entry]
      simp only [Host.once]
      cases w.stopped <;> simp
    have heffective : (v.entry h.once m).effective = ((w.entry h m).effective && !w.stopped) := by
      rw [World.effective_entry, hreact, ← hR.phase, World.effective_entry, Bool.and_right_comm,
        Bool.and_assoc _ (decide _) (decide _), Bool.and_self]
    refine ⟨hR.phase, hR.state, ?_, ?_, ?_⟩
    · rw [World.stopped_tell, World.stopped_tell, heffective, ← hR.stopped]
      cases w.stopped <;> simp
    · exact congrArg Prod.fst hreact
    · rw [World.history_tell, World.history_tell, List.map_append, List.map_append, hR.told,
        List.map_singleton, List.map_singleton, World.entry_phase, World.entry_phase, hR.phase,
        World.entry_moment, World.entry_moment]
  put s w v hR := ⟨hR.phase, rfl, hR.stopped, hR.host, hR.told⟩
  enter p w v hR := ⟨rfl, hR.state, hR.stopped, hR.host, hR.told⟩

/-- **Stops in vain change nothing.**  If a host asks for no stop but the first that counts,
it is told the same, and the run comes to the same state and the same end. -/
theorem run_once (g : Game σ φ) (h : Host α φ) (p : Program) (initial : σ) (host : α) :
    (run g h.once p initial (host, false)).told = (run g h p initial host).told ∧
      (run g h.once p initial (host, false)).state = (run g h p initial host).state ∧
      (run g h.once p initial (host, false)).ending = (run g h p initial host).ending ∧
      (run g h.once p initial (host, false)).host.1 = (run g h p initial host).host := by
  have hfresh : OnceLike (World.fresh (g.reset initial).2 host : World σ φ α)
      (World.fresh (g.reset initial).2 (host, false)) := ⟨rfl, rfl, rfl, rfl, rfl⟩
  obtain ⟨w, v, hR, hw, hv⟩ := (likeness_once h).run g p initial hfresh
  rw [hw, hv]
  exact ⟨hR.told.symm, hR.state.symm, rfl, congrArg Prod.fst hR.host⟩

end Run

end BlockRobot
