import BlockRobot.Proofs.Run.Tandem
import BlockRobot.Run.Timetable

/-!
# Games that are images of one another

One game can be the image of another: its states and frames are images of those of the other, and
so is what an instruction does, if the sides of turns are exchanged or not (`Game.Image`).  Then its
runs are images, moment by moment (`Game.Image.run`).

What the hosts of two such runs have in common is that they ask for a stop at the same moments.
`Host.Matches` says so without saying what a host looks at, when it stops the run, or how often: of
hosts that match, one is told of the images of the moments that the other is told of, and both react
alike.  For every host there is one that matches it (`Host.matches_seeing`), and a host with a clock
matches itself, even if it keeps a log of the frames it is shown (`Timetable.matches_host`).  So all
that can be put on a timetable is covered, with stops at times of the clock, and at events.

A notification says nothing of frames or sides, so the notifications in a run and in its image are
the same (`Report.IsImage.hooks_eq`).
-/

namespace BlockRobot

/-! ## Instructions with other sides -/

namespace Op

mutual

/-- An instruction with other sides, at every depth. -/
def withSides (f : Side → Side) : Op → Op
  | start id => start id
  | move steps id => move steps id
  | turn side id => turn (f side) id
  | loop times body id => loop times (withSidesAll f body) id
  | wait ms id => wait ms id

/-- Instructions with other sides, at every depth. -/
def withSidesAll (f : Side → Side) : List Op → List Op
  | [] => []
  | op :: ops => withSides f op :: withSidesAll f ops

end

variable (f : Side → Side)

theorem withSidesAll_eq_map (ops : List Op) : withSidesAll f ops = ops.map (withSides f) := by
  induction ops with
  | nil => rfl
  | cons op ops ih => rw [withSidesAll, ih, List.map_cons]

theorem withSides_loop (times : Double) (body : List Op) (id : String) :
    withSides f (.loop times body id) = .loop times (body.map (withSides f)) id := by
  rw [withSides, withSidesAll_eq_map]

@[simp] theorem isLoop_withSides (op : Op) : (op.withSides f).isLoop = op.isLoop := by
  cases op <;> rfl

@[simp] theorem id_withSides (op : Op) : (op.withSides f).id = op.id := by
  cases op <;> rfl

@[simp] theorem kindName_withSides (op : Op) : (op.withSides f).kindName = op.kindName := by
  cases op <;> rfl

/-- Instructions with the sides they have are left as they are. -/
theorem map_withSides_self (ops : List Op) : ops.map (withSides fun side => side) = ops := by
  induction ops using listInduction (Q := fun op => op.withSides (fun side => side) = op) with
  | plain op hop =>
    cases op with
    | loop times body id => cases hop
    | _ => rfl
  | loop times body id ih => rw [withSides_loop, ih]
  | nil => rfl
  | cons op ops ihop ihops => rw [List.map_cons, ihop, ihops]

end Op

/-- A program with other sides, at every depth. -/
def Program.withSides (f : Side → Side) (p : Program) : Program := ⟨p.ops.map (Op.withSides f)⟩

theorem Program.withSides_self (p : Program) : p.withSides (fun side => side) = p :=
  congrArg Program.mk (Op.map_withSides_self p.ops)

/-! ## Images of what happens -/

section Recast

variable {σ τ φ ψ : Type} (f : Side → Side) (T : σ → τ) (F : φ → ψ)

/-- The image of an act. -/
def Act.map : Act φ → Act ψ
  | shown frame => .shown (F frame)
  | slept d => .slept d

/-- The image of a response. -/
def Response.map (r : Response σ φ) : Response τ ψ := ⟨r.acts.map (Act.map F), T r.state, r.verdict⟩

/-- The image of a moment. -/
def Moment.recast : Moment φ → Moment ψ
  | status line => .status line
  | launched => .launched
  | step op => .step (op.withSides f)
  | applying op => .applying (op.withSides f)
  | shown frame => .shown (F frame)
  | slept d => .slept d
  | yielded => .yielded
  | paused d => .paused d
  | done => .done
  | interrupted i => .interrupted i

/-- The image of an entry, with the same stop in the same phase. -/
def Entry.recast (e : Entry φ) : Entry ψ := ⟨e.phase, e.moment.recast f F, e.stop⟩

theorem Act.moment_map (a : Act φ) : (a.map F).moment = a.moment.recast f F := by
  cases a <;> rfl

theorem Ending.moments_recast (e : Ending) :
    (e.moments : List (Moment φ)).map (Moment.recast f F) = e.moments := by
  cases e <;> rfl

end Recast

/-! ## Notifications -/

/-- A notification: what a host is called with. -/
inductive Hook where
  | status (line : StatusLine)
  | step (id : String)
  | done
  | error (i : Interruption)
deriving DecidableEq

/-- The notification at a moment, if there is one. -/
def Moment.hook? {φ : Type} : Moment φ → Option Hook
  | status line => some (.status line)
  | step op => some (.step op.id)
  | done => some .done
  | interrupted i => some (.error i)
  | _ => none

/-- The notifications in a run, in order. -/
def Report.hooks {σ φ α : Type} (r : Report σ φ α) : List Hook :=
  r.log.filterMap fun e => e.moment.hook?

theorem Moment.hook?_recast {φ ψ : Type} (f : Side → Side) (F : φ → ψ) (m : Moment φ) :
    (m.recast f F).hook? = m.hook? := by
  cases m with
  | step op => exact congrArg (fun id => some (Hook.step id)) (op.id_withSides f)
  | _ => rfl

/-! ## Images of games and runs -/

section Image

variable {σ τ φ ψ α β : Type}

/-- A game that is the image of another, with other sides. -/
structure Game.Image (g : Game σ φ) (g' : Game τ ψ) (f : Side → Side) (T : σ → τ) (F : φ → ψ) :
    Prop where
  reset : ∀ s, g'.reset (T s) = ((g.reset s).1.map F, T (g.reset s).2)
  apply : ∀ op s, op.isLoop = false → g'.apply (op.withSides f) (T s) = (g.apply op s).map T F

/-- Hosts that react alike, one to moments and the other to their images. -/
def Host.Matches (h : Host α φ) (h' : Host β ψ) (f : Side → Side) (F : φ → ψ)
    (S : α → β → Prop) : Prop :=
  ∀ a b phase m, S a b →
    S (h.react a phase m).1 (h'.react b phase (m.recast f F)).1 ∧
      (h'.react b phase (m.recast f F)).2 = (h.react a phase m).2

/-- The host that is told of moments and reacts as another host to their images. -/
def Host.seeing (h' : Host β ψ) (f : Side → Side) (F : φ → ψ) : Host β φ where
  react b phase m := h'.react b phase (m.recast f F)

/-- **There is a match for every host.** -/
theorem Host.matches_seeing (h' : Host β ψ) (f : Side → Side) (F : φ → ψ) :
    (h'.seeing f F).Matches h' f F fun b b' => b = b' := by
  rintro b _ phase m rfl
  exact ⟨rfl, rfl⟩

/-- A world that is the image of another. -/
structure World.IsImage (f : Side → Side) (T : σ → τ) (F : φ → ψ) (S : α → β → Prop)
    (w : World σ φ α) (v : World τ ψ β) : Prop where
  phase : v.phase = w.phase
  state : v.state = T w.state
  host : S w.host v.host
  stopped : v.stopped = w.stopped
  history : v.history = w.history.map (Entry.recast f F)

/-- A report that is the image of another. -/
structure Report.IsImage (f : Side → Side) (T : σ → τ) (F : φ → ψ) (S : α → β → Prop)
    (r : Report σ φ α) (r' : Report τ ψ β) : Prop where
  ending : r'.ending = r.ending
  state : r'.state = T r.state
  host : S r.host r'.host
  log : r'.log = r.log.map (Entry.recast f F)

variable {f : Side → Side} {T : σ → τ} {F : φ → ψ} {S : α → β → Prop}

/-- The notifications are the same. -/
theorem Report.IsImage.hooks_eq {r : Report σ φ α} {r' : Report τ ψ β}
    (hr : r.IsImage f T F S r') : r'.hooks = r.hooks := by
  rw [Report.hooks, Report.hooks, hr.log, List.filterMap_map]
  exact congrArg (fun hook => r.log.filterMap hook)
    (funext fun e => e.moment.hook?_recast f F)

variable {g : Game σ φ} {g' : Game τ ψ} {h : Host α φ} {h' : Host β ψ}

namespace World.IsImage

variable {w : World σ φ α} {v : World τ ψ β}

theorem tell (hh : h.Matches h' f F S) (m : Moment φ) (hw : w.IsImage f T F S v) :
    (w.tell h m).IsImage f T F S (v.tell h' (m.recast f F)) := by
  obtain ⟨hhost, hstop⟩ := hh w.host v.host w.phase m hw.host
  have hentry : v.entry h' (m.recast f F) = (w.entry h m).recast f F := by
    rw [World.entry, hw.phase, hstop]
    rfl
  refine ⟨hw.phase, hw.state, ?_, ?_, ?_⟩
  · show S (h.react w.host w.phase m).1 (h'.react v.host v.phase (m.recast f F)).1
    rw [hw.phase]
    exact hhost
  · rw [World.stopped_tell, World.stopped_tell, hw.stopped, hentry]
    rfl
  · rw [World.history_tell, World.history_tell, hw.history, hentry, List.map_append]
    rfl

theorem tellAll (hh : h.Matches h' f F S) (ms : List (Moment φ)) (hw : w.IsImage f T F S v) :
    (w.tellAll h ms).IsImage f T F S (v.tellAll h' (ms.map (Moment.recast f F))) := by
  induction ms generalizing w v with
  | nil => exact hw
  | cons m ms ih => exact ih (hw.tell hh m)

theorem enter (p : Phase) (hw : w.IsImage f T F S v) : (w.enter p).IsImage f T F S (v.enter p) :=
  ⟨rfl, hw.state, hw.host, hw.stopped, hw.history⟩

theorem put (s : σ) (hw : w.IsImage f T F S v) : (w.put s).IsImage f T F S (v.put (T s)) :=
  ⟨hw.phase, rfl, hw.host, hw.stopped, hw.history⟩

end World.IsImage

namespace Game.Image

open Run

variable (hi : g.Image g' f T F) (hh : h.Matches h' f F S) {w : World σ φ α} {v : World τ ψ β}

include hh

theorem pause (op : Op) (hw : w.IsImage f T F S v) :
    (Run.pause h op w).IsImage f T F S (Run.pause h' (op.withSides f) v) := by
  cases op with
  | wait ms id =>
    rw [Op.withSides, Run.pause, Run.pause, hw.stopped]
    split
    · exact hw
    · exact hw.tell hh _
  | _ => exact hw

include hi

theorem applied {op : Op} (hop : op.isLoop = false) (hw : w.IsImage f T F S v) :
    (Run.applied g h op w).IsImage f T F S (Run.applied g' h' (op.withSides f) v) := by
  have hacts : ((g.apply op w.state).map T F).acts.map Act.moment =
      ((g.apply op w.state).acts.map Act.moment).map (Moment.recast f F) := by
    rw [Response.map, List.map_map, List.map_map]
    exact List.map_congr_left fun a _ => a.moment_map f F
  rw [Run.applied, Run.applied, hw.state, hi.apply op w.state hop, hacts]
  exact ((hw.tell hh (.applying op)).tellAll hh _).put _

theorem perform {op : Op} (hop : op.isLoop = false) (hw : w.IsImage f T F S v) :
    Alike (World.IsImage f T F S) (Run.perform g h op w)
      (Run.perform g' h' (op.withSides f) v) := by
  rw [perform_eq, perform_eq]
  refine Alike.andThen ⟨applied hi hh hop hw, ?_⟩ fun hw => ⟨pause hh op hw, rfl⟩
  rw [hw.state, hi.apply op w.state hop]
  rfl

/-- Runs of a game and its image go in tandem. -/
theorem tandem : Tandem g g' h h' (Op.withSides f) (World.IsImage f T F S) where
  loop := Op.withSides_loop f
  plain op hop := (op.isLoop_withSides f).trans hop
  stopped hw := hw.stopped.symm
  step op _ _ hw := hw.tell hh (.step op)
  yielded hw := hw.tell hh .yielded
  perform _ hop _ _ hw := perform hi hh hop hw
  conclude e _ _ hw := by
    have htold := (hw.enter .finished).tellAll hh e.moments
    rwa [e.moments_recast f F] at htold

/-- The worlds in which the walks begin are images. -/
theorem launch (s : σ) {a : α} {b : β} (hab : S a b) :
    (Run.launch g h s a).IsImage f T F S (Run.launch g' h' (T s) b) := by
  have hfresh : (World.fresh (g.reset s).2 a : World σ φ α).IsImage f T F S
      (World.fresh (T (g.reset s).2) b : World τ ψ β) := ⟨rfl, rfl, hab, rfl, rfl⟩
  have hframes : ((g.reset s).1.map F).map Moment.shown =
      ((g.reset s).1.map Moment.shown).map (Moment.recast f F) := by
    rw [List.map_map, List.map_map]
    rfl
  rw [launch_eq, launch_eq, hi.reset s, hframes]
  exact (((hfresh.tellAll hh _).tell hh (.status .running)).enter .walking).tell hh .launched

/-- **The runs of a game and its image are images**, with the sides of the program exchanged like
those of the game. -/
theorem run (p : Program) (s : σ) {a : α} {b : β} (hab : S a b) :
    (BlockRobot.run g h p s a).IsImage f T F S
      (BlockRobot.run g' h' (p.withSides f) (T s) b) := by
  obtain ⟨w, v, hw, hrun, hrun'⟩ := (tandem hi hh).run p (launch hi hh s hab)
  rw [hrun, Program.withSides, hrun']
  exact ⟨rfl, hw.state, hw.host, hw.history⟩

end Game.Image

end Image

/-! ## Timetables -/

section Timetable

variable {φ ψ : Type} (F : φ → ψ)

/-- A line of a log with the image of its frame. -/
def Line.recast : Line φ → Line ψ
  | status line running => .status line running
  | step id => .step id
  | apply id kind => .apply id kind
  | draw surface frame => .draw surface (F frame)
  | done running => .done running
  | error i running => .error i running
  | stop running => .stop running
  | query running => .query running

theorem Trigger.counts_recast (t : Trigger) (line : Line φ) :
    t.counts (line.recast F) = t.counts line := by
  cases line <;> rfl

namespace Timetable

/-- A timetable with the images of all frames in its log. -/
def recast (t : Timetable φ) : Timetable ψ where
  notified := t.notified
  watchesGame := t.watchesGame
  surface := t.surface
  triggers := t.triggers
  now := t.now
  due := t.due
  log := t.log.map fun e => (e.1, e.2.recast F)

theorem triggered_recast (t : Timetable φ) (line : Line φ) :
    (t.recast F).triggered (line.recast F) = t.triggered line := by
  have hcount : ∀ trigger, (t.recast F).countFor trigger = t.countFor trigger := by
    intro trigger
    rw [countFor, countFor, recast, List.countP_map]
    exact congrArg (fun counts => t.log.countP counts)
      (funext fun e => trigger.counts_recast F e.2)
  rw [triggered, triggered]
  simp only [hcount, Trigger.counts_recast]
  rfl

theorem record_recast (t : Timetable φ) (phase : Phase) (line : Line φ) :
    (t.recast F).record phase (line.recast F) =
      ((t.record phase line).1.recast F, (t.record phase line).2) := by
  have htriggered := (t.note line).triggered_recast F line
  have hnote : (t.recast F).note (line.recast F) = (t.note line).recast F := rfl
  rw [record, record, hnote, htriggered]
  split <;> rfl

theorem notify_recast (t : Timetable φ) (phase : Phase) (line : Line φ) :
    (t.recast F).notify phase (line.recast F) =
      ((t.notify phase line).1.recast F, (t.notify phase line).2) := by
  rw [notify, notify, record_recast]
  show (if t.notified then _ else _) = _
  split <;> rfl

theorem sleep_recast (phase : Phase) (wakes : Bool) (due : List (Nat × Command)) (until_ : Nat)
    (stop : Bool) (t : Timetable φ) :
    sleep phase wakes due until_ stop (t.recast F) =
      ((sleep phase wakes due until_ stop t).1.recast F,
        (sleep phase wakes due until_ stop t).2) := by
  induction due generalizing until_ stop t with
  | nil => rfl
  | cons entry due ih =>
    obtain ⟨at_, command⟩ := entry
    rw [sleep, sleep]
    show (if max t.now at_ ≤ until_ then _ else _) = _
    split
    · cases command with
      | stop =>
        exact ih (if wakes then max t.now at_ else until_) true
          (perform { t with now := max t.now at_ } phase .stop)
      | query => exact ih until_ stop (perform { t with now := max t.now at_ } phase .query)
    · rfl

/-- A timetable reacts alike to a moment and to its image. -/
theorem react_recast (f : Side → Side) (t : Timetable φ) (phase : Phase) (m : Moment φ) :
    (t.recast F).react phase (m.recast f F) =
      ((t.react phase m).1.recast F, (t.react phase m).2) := by
  cases m with
  | status line => exact t.notify_recast F phase (.status line phase.running?)
  | launched => exact sleep_recast F ..
  | step op =>
    rw [Moment.recast, react, react, op.id_withSides f]
    exact t.notify_recast F phase (.step op.id)
  | applying op =>
    rw [Moment.recast, react, react, op.id_withSides f, op.kindName_withSides f]
    show (if t.watchesGame then _ else _) = _
    split
    · exact t.record_recast F phase (.apply op.id op.kindName)
    · rfl
  | shown frame =>
    rw [Moment.recast, react, react]
    have hsurface : (t.recast F).surface = t.surface := rfl
    rw [hsurface]
    cases t.surface with
    | some surface => exact t.record_recast F phase (.draw surface frame)
    | none => rfl
  | slept d => exact sleep_recast F ..
  | yielded => rfl
  | paused d => exact sleep_recast F ..
  | done => exact t.notify_recast F phase (.done phase.running?)
  | interrupted i => exact t.notify_recast F phase (.error i phase.running?)

/-- **A timetable matches itself**, whatever is on it. -/
theorem matches_host (f : Side → Side) :
    (host φ).Matches (host ψ) f F fun t t' => t' = t.recast F := by
  rintro t _ phase m rfl
  have hreact := t.react_recast F f phase m
  exact ⟨congrArg Prod.fst hreact, congrArg Prod.snd hreact⟩

end Timetable

end Timetable

end BlockRobot
