import BlockRobot.Run

/-!
# How a walk is put together

A walk is built from few things: an instruction is announced, applied and paused
after, a round of a loop is yielded before, and a walk that has been stopped is left.
This file says so once, so that what holds of every walk need only be shown of these.

* `Stretch.andThen` puts two stretches one after the other, and `walk_cons`,
  `walkOp_loop`, `walkOp_of_not_isLoop` and `repeatedly_succ'` are the equations of the
  walk in terms of it.
* `Op.listInduction` is induction over programs: lists of instructions, loops, and
  instructions that are no loops.
* `walk_induction`: a property of stretches that announcing, applying, yielding and
  leaving keep is kept by every walk.

## What a world remembers of stops

A world knows whether it has been stopped, and its record shows every stop asked for.
The two agree (`remembers_walk`): a world has been stopped exactly when its record holds an
*effective* entry, one in which a stop is asked for while the run is walking.
-/

namespace BlockRobot

namespace Op

/-- Whether an instruction is a loop, which is walked and never applied. -/
def isLoop : Op → Bool
  | loop _ _ _ => true
  | _ => false

mutual

/-- Induction over instructions: what holds of a list of instructions may be used for the
loop with that body. -/
theorem induction {P : List Op → Prop} {Q : Op → Prop}
    (plain : ∀ op, op.isLoop = false → Q op)
    (loop : ∀ times body id, P body → Q (.loop times body id))
    (nil : P []) (cons : ∀ op ops, Q op → P ops → P (op :: ops)) : ∀ op : Op, Q op
  | .start id => plain (.start id) rfl
  | .move steps id => plain (.move steps id) rfl
  | .turn side id => plain (.turn side id) rfl
  | .wait ms id => plain (.wait ms id) rfl
  | .loop times body id => loop times body id (listInduction plain loop nil cons body)

/-- Induction over lists of instructions. -/
theorem listInduction {P : List Op → Prop} {Q : Op → Prop}
    (plain : ∀ op, op.isLoop = false → Q op)
    (loop : ∀ times body id, P body → Q (.loop times body id))
    (nil : P []) (cons : ∀ op ops, Q op → P ops → P (op :: ops)) : ∀ ops : List Op, P ops
  | [] => nil
  | op :: ops =>
    cons op ops (induction plain loop nil cons op) (listInduction plain loop nil cons ops)

end

end Op

/-! ## Telling the host -/

/-- The moment of an act. -/
def Act.moment {φ : Type} : Act φ → Moment φ
  | shown frame => .shown frame
  | slept d => .slept d

namespace Entry

variable {φ : Type}

/-- Whether a stop is asked for that counts, that is, while the run is walking. -/
def effective (e : Entry φ) : Bool := e.stop && decide (e.phase = .walking)

end Entry

namespace World

variable {σ φ α : Type}

/-- What has happened, in order. -/
def history (w : World σ φ α) : List (Entry φ) := w.log.reverse

/-- What is put on record when the host is told of a moment. -/
def entry (h : Host α φ) (m : Moment φ) (w : World σ φ α) : Entry φ :=
  ⟨w.phase, m, (h.react w.host w.phase m).2⟩

@[simp] theorem entry_phase (h : Host α φ) (m : Moment φ) (w : World σ φ α) :
    (w.entry h m).phase = w.phase := rfl

@[simp] theorem entry_moment (h : Host α φ) (m : Moment φ) (w : World σ φ α) :
    (w.entry h m).moment = m := rfl

theorem effective_entry (h : Host α φ) (m : Moment φ) (w : World σ φ α) :
    (w.entry h m).effective =
      ((h.react w.host w.phase m).2 && decide (w.phase = .walking)) := rfl

theorem history_tell (h : Host α φ) (m : Moment φ) (w : World σ φ α) :
    (w.tell h m).history = w.history ++ [w.entry h m] := by
  simp [history, entry, tell_log]

theorem stopped_tell (h : Host α φ) (m : Moment φ) (w : World σ φ α) :
    (w.tell h m).stopped = (w.stopped || (w.entry h m).effective) := rfl

/-- The world with another state of the game. -/
def put (s : σ) (w : World σ φ α) : World σ φ α := { w with state := s }

@[simp] theorem put_stopped (s : σ) (w : World σ φ α) : (w.put s).stopped = w.stopped := rfl
@[simp] theorem put_history (s : σ) (w : World σ φ α) : (w.put s).history = w.history := rfl

/-- The world in another phase. -/
def enter (p : Phase) (w : World σ φ α) : World σ φ α := { w with phase := p }

@[simp] theorem enter_state (p : Phase) (w : World σ φ α) : (w.enter p).state = w.state := rfl
@[simp] theorem enter_phase (p : Phase) (w : World σ φ α) : (w.enter p).phase = p := rfl
@[simp] theorem enter_stopped (p : Phase) (w : World σ φ α) :
    (w.enter p).stopped = w.stopped := rfl
@[simp] theorem enter_history (p : Phase) (w : World σ φ α) :
    (w.enter p).history = w.history := rfl

/-- What is known of a run that ended in this world. -/
def report (w : World σ φ α) (ending : Ending) : Report σ φ α :=
  ⟨ending, w.state, w.host, w.history⟩

/-- The world before anything has happened. -/
def fresh (s : σ) (host : α) : World σ φ α := ⟨.unlaunched, s, host, false, []⟩

@[simp] theorem fresh_state (s : σ) (host : α) : (fresh s host : World σ φ α).state = s := rfl
@[simp] theorem fresh_stopped (s : σ) (host : α) :
    (fresh s host : World σ φ α).stopped = false := rfl
@[simp] theorem fresh_history (s : σ) (host : α) :
    (fresh s host : World σ φ α).history = [] := rfl

/-- Tells the host of some moments. -/
def tellAll (h : Host α φ) (ms : List (Moment φ)) (w : World σ φ α) : World σ φ α :=
  ms.foldl (fun w m => w.tell h m) w

@[simp] theorem tellAll_nil (h : Host α φ) (w : World σ φ α) : w.tellAll h [] = w := rfl

@[simp] theorem tellAll_cons (h : Host α φ) (m : Moment φ) (ms : List (Moment φ))
    (w : World σ φ α) : w.tellAll h (m :: ms) = (w.tell h m).tellAll h ms := rfl

@[simp] theorem tellAll_state (h : Host α φ) (ms : List (Moment φ)) (w : World σ φ α) :
    (w.tellAll h ms).state = w.state := by
  induction ms generalizing w with
  | nil => rfl
  | cons m ms ih => rw [tellAll_cons, ih, tell_state]

@[simp] theorem tellAll_phase (h : Host α φ) (ms : List (Moment φ)) (w : World σ φ α) :
    (w.tellAll h ms).phase = w.phase := by
  induction ms generalizing w with
  | nil => rfl
  | cons m ms ih => rw [tellAll_cons, ih, tell_phase]

/-- The acts of a response are told one by one. -/
theorem tellActs_eq (h : Host α φ) (acts : List (Act φ)) (w : World σ φ α) :
    w.tellActs h acts = w.tellAll h (acts.map Act.moment) := by
  induction acts generalizing w with
  | nil => rfl
  | cons act acts ih => cases act <;> exact ih _

/-- Frames are told one by one. -/
theorem tellFrames_eq (h : Host α φ) (frames : List φ) (w : World σ φ α) :
    w.tellFrames h frames = w.tellAll h (frames.map Moment.shown) := by
  induction frames generalizing w with
  | nil => rfl
  | cons frame frames ih => exact ih _

/-- Telling of moments adds an entry for each of them. -/
theorem exists_history_tellAll (h : Host α φ) (ms : List (Moment φ)) (w : World σ φ α) :
    ∃ entries, (w.tellAll h ms).history = w.history ++ entries ∧
      entries.map Entry.moment = ms ∧ ∀ e ∈ entries, e.phase = w.phase := by
  induction ms generalizing w with
  | nil => exact ⟨[], by simp, rfl, by simp⟩
  | cons m ms ih =>
    obtain ⟨entries, hh, hm, hp⟩ := ih (w.tell h m)
    refine ⟨w.entry h m :: entries, ?_, ?_, ?_⟩
    · rw [tellAll_cons, hh, history_tell, List.append_assoc, List.singleton_append]
    · rw [List.map_cons, hm, entry_moment]
    · intro e he
      rcases List.mem_cons.1 he with rfl | he
      · rfl
      · exact (hp e he).trans (tell_phase h m w)

/-! ### What a world remembers of stops -/

/-- A world remembers stops if it counts as stopped exactly when its record says so. -/
def Remembers (w : World σ φ α) : Prop := w.stopped = w.history.any Entry.effective

theorem Remembers.tell {w : World σ φ α} (hw : w.Remembers) (h : Host α φ) (m : Moment φ) :
    (w.tell h m).Remembers := by
  rw [Remembers, stopped_tell, history_tell, List.any_append, ← hw, List.any_cons,
    List.any_nil, Bool.or_false]

theorem Remembers.enter {w : World σ φ α} (hw : w.Remembers) (p : Phase) :
    (w.enter p).Remembers := hw

theorem Remembers.tellAll {w : World σ φ α} (hw : w.Remembers) (h : Host α φ)
    (ms : List (Moment φ)) : (w.tellAll h ms).Remembers := by
  induction ms generalizing w with
  | nil => exact hw
  | cons m ms ih => exact ih (hw.tell h m)

theorem stopped_tellAll_of_ne_walking (h : Host α φ) (ms : List (Moment φ)) {w : World σ φ α}
    (hw : w.phase ≠ .walking) : (w.tellAll h ms).stopped = w.stopped := by
  induction ms generalizing w with
  | nil => rfl
  | cons m ms ih =>
    rw [tellAll_cons, ih (by rwa [tell_phase]), stopped_tell, effective_entry,
      decide_eq_false hw, Bool.and_false, Bool.or_false]

end World

/-! ## Endings -/

/-- How a run ends that was halted. -/
def Halt.ending : Halt → Ending
  | .stopped => .stopped
  | .interrupted (.outcome o) => .outcome o
  | .interrupted (.failure message) => .failed message
  | .crashed => .crashed

/-- What the host is told at the end of a run. -/
def Ending.moments {φ : Type} : Ending → List (Moment φ)
  | .done => [.done, .status .done]
  | .stopped => [.status .stopped]
  | .outcome o => [.interrupted (.outcome o)]
  | .failed message => [.interrupted (.failure message)]
  | .crashed => []

namespace Run

variable {σ φ α : Type}

/-! ## Stretches one after the other -/

/-- A stretch, and another behind it unless the walk is left before. -/
def Stretch.andThen (r : Stretch σ φ α) (next : World σ φ α → Stretch σ φ α) : Stretch σ φ α :=
  match r.2 with
  | some halt => (r.1, some halt)
  | none => next r.1

@[simp] theorem Stretch.andThen_none (w : World σ φ α) (next : World σ φ α → Stretch σ φ α) :
    Stretch.andThen (w, none) next = next w := rfl

@[simp] theorem Stretch.andThen_some (w : World σ φ α) (halt : Halt)
    (next : World σ φ α → Stretch σ φ α) :
    Stretch.andThen (w, some halt) next = (w, some halt) := rfl

theorem walk_cons (g : Game σ φ) (h : Host α φ) (op : Op) (ops : List Op) (w : World σ φ α) :
    walk g h (op :: ops) w = (walkOp g h op w).andThen (walk g h ops) := by
  rw [walk]
  rcases walkOp g h op w with ⟨v, _ | halt⟩ <;> rfl

theorem repeatedly_succ' (round : World σ φ α → Stretch σ φ α) (n : Nat) (w : World σ φ α) :
    repeatedly round (n + 1) w = (round w).andThen (repeatedly round n) := by
  rcases hr : round w with ⟨v, _ | halt⟩
  · exact repeatedly_succ hr
  · exact repeatedly_succ_of_halt hr

/-- A round of a loop: others have their turn, and then the body is walked. -/
def round (g : Game σ φ) (h : Host α φ) (body : List Op) (w : World σ φ α) : Stretch σ φ α :=
  if (w.tell h .yielded).stopped then (w.tell h .yielded, some .stopped)
  else walk g h body (w.tell h .yielded)

/-- An instruction that is no loop is announced and applied. -/
theorem walkOp_of_not_isLoop (g : Game σ φ) (h : Host α φ) {op : Op} (hop : op.isLoop = false)
    {w : World σ φ α} (hw : w.stopped = false) :
    walkOp g h op w = perform g h op (w.tell h (.step op)) := by
  cases op with
  | loop times body id => simp [Op.isLoop] at hop
  | _ => simp [walkOp, hw]

/-- A loop is announced and its rounds are walked. -/
theorem walkOp_loop (g : Game σ φ) (h : Host α φ) (times : Double) (body : List Op)
    (id : String) {w : World σ φ α} (hw : w.stopped = false) :
    walkOp g h (.loop times body id) w =
      repeatedly (round g h body) times.repetitions (w.tell h (.step (.loop times body id))) := by
  rw [walkOp, if_neg (by simp [hw])]
  rfl

/-- A walk that has been stopped is left at once, if anything is left to walk. -/
theorem walk_of_stopped (g : Game σ φ) (h : Host α φ) (ops : List Op) {w : World σ φ α}
    (hw : w.stopped = true) :
    walk g h ops w = (w, none) ∨ walk g h ops w = (w, some .stopped) := by
  cases ops with
  | nil => exact Or.inl rfl
  | cons op ops => exact Or.inr (by rw [walk_cons, walkOp_of_stopped g h op hw]; rfl)

/-! ## What every walk keeps -/

section Induction

variable {g : Game σ φ} {h : Host α φ} {C : Stretch σ φ α → Prop}
  (leave : ∀ w, C (w, none) → w.stopped = true → C (w, some .stopped))
  (announce : ∀ w times body id, C (w, none) → w.stopped = false →
    C (w.tell h (.step (.loop times body id)), none))
  (yielding : ∀ w, C (w, none) → C (w.tell h .yielded, none))
  (performing : ∀ op w, op.isLoop = false → C (w, none) → w.stopped = false →
    C (perform g h op (w.tell h (.step op))))

/-- A property of stretches carries over to a stretch put behind. -/
theorem Stretch.andThen_keeps {r : Stretch σ φ α} {next : World σ φ α → Stretch σ φ α}
    (hr : C r) (hnext : ∀ w, C (w, none) → C (next w)) : C (r.andThen next) := by
  obtain ⟨w, _ | halt⟩ := r
  · exact hnext w hr
  · exact hr

/-- A property of stretches that every round keeps is kept by any number of rounds. -/
theorem repeatedly_keeps {round : World σ φ α → Stretch σ φ α}
    (hround : ∀ w, C (w, none) → C (round w)) (n : Nat) {w : World σ φ α} (hw : C (w, none)) :
    C (repeatedly round n w) := by
  induction n generalizing w with
  | zero => exact hw
  | succ n ih =>
    rw [repeatedly_succ']
    exact Stretch.andThen_keeps (hround w hw) fun v hv => ih hv

include leave announce yielding performing

/-- **What every walk keeps.**  A property of stretches that leaving a stopped walk,
announcing a loop, yielding, and performing an instruction keep is kept by the walk of
any instructions. -/
theorem walk_induction (ops : List Op) {w : World σ φ α} (hw : C (w, none)) :
    C (walk g h ops w) := by
  revert w
  refine Op.listInduction (P := fun ops => ∀ {w}, C (w, none) → C (walk g h ops w))
    (Q := fun op => ∀ {w}, C (w, none) → C (walkOp g h op w)) ?plain ?loop ?nil ?cons ops
  case plain =>
    intro op hop w hw
    cases hs : w.stopped with
    | true => rw [walkOp_of_stopped g h op hs]; exact leave w hw hs
    | false => rw [walkOp_of_not_isLoop g h hop hs]; exact performing op w hop hw hs
  case loop =>
    intro times body id ih w hw
    cases hs : w.stopped with
    | true => rw [walkOp_of_stopped g h _ hs]; exact leave w hw hs
    | false =>
      rw [walkOp_loop g h times body id hs]
      refine repeatedly_keeps (fun v hv => ?_) _ (announce w times body id hw hs)
      have hy := yielding v hv
      rw [round]
      split
      · rename_i hstop
        exact leave _ hy hstop
      · exact ih hy
  case nil => exact fun hw => hw
  case cons =>
    intro op ops hop hops w hw
    rw [walk_cons]
    exact Stretch.andThen_keeps (hop hw) fun v hv => hops hv

end Induction

/-! ## The parts of a run -/

/-- The world behind an instruction applied, before any pause: the game began, its acts were
told, and its state was put. -/
def applied (g : Game σ φ) (h : Host α φ) (op : Op) (w : World σ φ α) : World σ φ α :=
  ((w.tell h (.applying op)).tellAll h ((g.apply op w.state).acts.map Act.moment)).put
    (g.apply op w.state).state

/-- An instruction is performed by applying it and, if the game goes on, pausing. -/
theorem perform_eq (g : Game σ φ) (h : Host α φ) (op : Op) (w : World σ φ α) :
    perform g h op w =
      Stretch.andThen (applied g h op w, (g.apply op w.state).verdict.halt?)
        fun v => (pause h op v, none) := by
  rw [perform, World.tellActs_eq, applied]
  simp only [World.tell_state]
  cases (g.apply op w.state).verdict.halt? <;> rfl

/-- A run is launched when the game is reset and the host told that the run goes. -/
theorem launch_eq (g : Game σ φ) (h : Host α φ) (initial : σ) (host : α) :
    launch g h initial host =
      ((((World.fresh (g.reset initial).2 host).tellAll h
        ((g.reset initial).1.map Moment.shown)).tell h (.status .running)).enter .walking).tell h
          .launched := by
  rw [launch, ← World.tellFrames_eq]
  rfl

/-- The ending to which a stretch comes, a stop asked for meanwhile included. -/
def Stretch.ending (r : Stretch σ φ α) : Ending :=
  match r.2 with
  | some halt => Halt.ending halt
  | none => if r.1.stopped then .stopped else .done

/-- The world in which a run is over: its walk is no longer under way, and the host has
been told how it ended. -/
def Stretch.conclude (h : Host α φ) (r : Stretch σ φ α) : World σ φ α :=
  (r.1.enter .finished).tellAll h (Ending.moments r.ending)

theorem finish_eq (h : Host α φ) (r : Stretch σ φ α) :
    finish h r = (r.conclude h, r.ending) := by
  obtain ⟨v, halt⟩ := r
  obtain ⟨phase, state, host, stopped, log⟩ := v
  cases halt with
  | none => cases stopped <;> rfl
  | some halt =>
    cases halt with
    | interrupted i => cases i <;> rfl
    | _ => rfl

/-- What a run reports, in terms of its walk. -/
theorem run_eq (g : Game σ φ) (h : Host α φ) (p : Program) (initial : σ) (host : α) :
    run g h p initial host =
      ((walk g h p.ops (launch g h initial host)).conclude h).report
        (walk g h p.ops (launch g h initial host)).ending := by
  rw [run, finish_eq]
  rfl

/-- A pause is told, or there is none. -/
theorem pause_eq (h : Host α φ) (op : Op) (w : World σ φ α) :
    pause h op w = w ∨ w.stopped = false ∧ ∃ d, pause h op w = w.tell h (.paused d) := by
  cases op with
  | wait ms id =>
    rw [pause]
    split
    · exact Or.inl rfl
    · rename_i hd
      rw [Bool.or_eq_true, not_or, Bool.not_eq_true] at hd
      exact Or.inr ⟨hd.1, _, rfl⟩
  | _ => exact Or.inl rfl

/-! ## Stops -/

/-- A world that performs an instruction still remembers its stops. -/
theorem remembers_perform (g : Game σ φ) (h : Host α φ) (op : Op) {w : World σ φ α}
    (hw : w.Remembers) : (perform g h op w).1.Remembers := by
  rw [perform_eq]
  refine Stretch.andThen_keeps (C := fun r => r.1.Remembers) ?_ fun v hv => ?_
  · exact (hw.tell h _).tellAll h _
  · rcases pause_eq h op v with hp | ⟨-, d, hp⟩
    · rw [hp]; exact hv
    · rw [hp]; exact hv.tell h _

/-- After any walk a world remembers its stops. -/
theorem remembers_walk (g : Game σ φ) (h : Host α φ) (ops : List Op) {w : World σ φ α}
    (hw : w.Remembers) : (walk g h ops w).1.Remembers :=
  walk_induction (C := fun r => r.1.Remembers) (fun _ hv _ => hv)
    (fun _ _ _ _ hv _ => hv.tell h _) (fun _ hv => hv.tell h _)
    (fun op _ _ hv _ => remembers_perform g h op (hv.tell h _)) ops hw

/-- The world in which a walk begins remembers its stops. -/
theorem remembers_launch (g : Game σ φ) (h : Host α φ) (initial : σ) (host : α) :
    (launch g h initial host).Remembers := by
  have hfresh : (World.fresh (g.reset initial).2 host : World σ φ α).Remembers := rfl
  have hrunning := (hfresh.tellAll h ((g.reset initial).1.map Moment.shown)).tell h
    (.status .running)
  rw [launch_eq]
  exact (hrunning.enter .walking).tell h .launched

end Run

end BlockRobot
