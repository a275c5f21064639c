import BlockRobot.Proofs.Run.Stopping
import Mathlib.Data.List.Induction

/-!
# What the verdicts say of a run

The instructions applied in a run are on record (`applications`), and the state at the end is
that of applying them in order (`state_run_eq_after`).  This file says what their verdicts
were, stopped or not: the game went on after each of them, or after each but the last, and
then the run ended with the verdict on that one (`verdicts_run`).

So a property of the state at the end needs no walk.  It is enough to know what one
instruction does to a state from which the game goes on, and to go along a list
(`Game.after_keeps`).  It is the same with what is seen on the way, for the frames on record
are those of the reset and then those of each instruction (`frames_run`).
-/

namespace BlockRobot

namespace Game

variable {σ φ : Type} {g : Game σ φ}

/-- The game goes on after one instruction more. -/
theorem GoesThrough.concat {ops : List Op} {op : Op} {s : σ} (hops : g.GoesThrough ops s)
    (hop : (g.apply op (g.after ops s)).verdict = .goOn) : g.GoesThrough (ops ++ [op]) s := by
  intro before x behind hsplit hx
  rcases eq_of_concat_eq hsplit with ⟨rfl, rfl, -⟩ | ⟨later, -, rfl⟩
  · exact hop
  · exact hops before x later rfl hx

/-- The game went on after all instructions in front of one that was applied. -/
theorem GoesThrough.left {before behind : List Op} {s : σ}
    (h : g.GoesThrough (before ++ behind) s) : g.GoesThrough before s := by
  intro first x rest hsplit hx
  exact h first x (rest ++ behind) (by rw [hsplit, List.append_assoc, List.cons_append]) hx

theorem after_concat_loop (g : Game σ φ) {op : Op} (hop : op.isLoop = true) (ops : List Op)
    (s : σ) : g.after (ops ++ [op]) s = g.after ops s := by
  rw [after, List.filter_append]
  simp [after, hop]

/-- The game goes on after what is behind the first instruction. -/
theorem GoesThrough.tail {op : Op} {ops : List Op} {s : σ} (h : g.GoesThrough (op :: ops) s) :
    g.GoesThrough ops (g.take op s).state := by
  intro before x behind hsplit hx
  rw [← g.after_cons op]
  exact h (op :: before) x behind (by rw [hsplit, List.cons_append]) hx

/-- A property of states that every instruction keeps after which the game goes on. -/
def KeptBy (g : Game σ φ) (P : σ → Prop) : Prop :=
  ∀ op s, op.isLoop = false → P s → (g.apply op s).verdict = .goOn → P (g.apply op s).state

/-- **What one instruction keeps, a list of them keeps.**  Loops in the list are not applied. -/
theorem after_keeps {P : σ → Prop} (hP : g.KeptBy P) {ops : List Op} {s : σ}
    (hops : g.GoesThrough ops s) (hs : P s) : P (g.after ops s) := by
  induction ops using List.reverseRecOn with
  | nil => exact hs
  | append_singleton ops op ih =>
    have hbefore := ih hops.left
    cases hop : op.isLoop with
    | true =>
      rw [g.after_concat_loop hop]
      exact hbefore
    | false =>
      rw [g.after_concat hop]
      exact hP op _ hop hbefore (hops ops op [] rfl hop)

/-- What every instruction keeps, whatever the verdict on it, a list of them keeps. -/
theorem after_keeps_always {P : σ → Prop}
    (hP : ∀ op s, op.isLoop = false → P s → P (g.apply op s).state) (ops : List Op) {s : σ}
    (hs : P s) : P (g.after ops s) := by
  induction ops using List.reverseRecOn with
  | nil => exact hs
  | append_singleton ops op ih =>
    cases hop : op.isLoop with
    | true =>
      rw [g.after_concat_loop hop]
      exact ih
    | false =>
      rw [g.after_concat hop]
      exact hP op _ hop ih

/-! ## Frames along a list -/

/-- The frames shown while some instructions are applied in order. -/
def framesAlong (g : Game σ φ) : List Op → σ → List φ
  | [], _ => []
  | op :: ops, s => (g.apply op s).frames ++ framesAlong g ops (g.apply op s).state

theorem framesAlong_concat (g : Game σ φ) {ops : List Op} (hplain : ∀ op ∈ ops, op.isLoop = false)
    (op : Op) (s : σ) :
    g.framesAlong (ops ++ [op]) s =
      g.framesAlong ops s ++ (g.apply op (g.after ops s)).frames := by
  induction ops generalizing s with
  | nil => exact List.append_nil _
  | cons x ops ih =>
    have hx : x.isLoop = false := hplain x (List.mem_cons_self ..)
    have hrest := ih (fun y hy => hplain y (List.mem_cons_of_mem x hy)) (g.apply x s).state
    rw [List.cons_append, framesAlong, framesAlong, hrest, after_cons, g.take_of_not_isLoop hx,
      List.append_assoc]

/-- A frame shown along a list was shown by one of its instructions. -/
theorem exists_of_mem_framesAlong {g : Game σ φ} {ops : List Op}
    (hplain : ∀ op ∈ ops, op.isLoop = false) {s : σ} {frame : φ}
    (hframe : frame ∈ g.framesAlong ops s) :
    ∃ earlier op later, ops = earlier ++ op :: later ∧
      frame ∈ (g.apply op (g.after earlier s)).frames := by
  induction ops generalizing s with
  | nil => exact (List.not_mem_nil hframe).elim
  | cons x ops ih =>
    have hx : x.isLoop = false := hplain x (List.mem_cons_self ..)
    rw [framesAlong, List.mem_append] at hframe
    rcases hframe with hframe | hframe
    · exact ⟨[], x, ops, rfl, hframe⟩
    · obtain ⟨earlier, op, later, rfl, hop⟩ :=
        ih (fun y hy => hplain y (List.mem_cons_of_mem x hy)) hframe
      refine ⟨x :: earlier, op, later, rfl, ?_⟩
      rw [after_cons, g.take_of_not_isLoop hx]
      exact hop

end Game

/-- The frame shown at a moment. -/
def Moment.frame? {φ : Type} : Moment φ → Option φ
  | shown frame => some frame
  | _ => none

/-- The frames on record, in order. -/
def framesShown {φ : Type} (log : List (Entry φ)) : List φ :=
  log.filterMap fun e => e.moment.frame?

theorem framesShown_eq {φ : Type} (log : List (Entry φ)) :
    framesShown log = (log.map Entry.moment).filterMap Moment.frame? := by
  rw [framesShown, List.filterMap_map]
  rfl

@[simp] theorem framesShown_append {φ : Type} (as bs : List (Entry φ)) :
    framesShown (as ++ bs) = framesShown as ++ framesShown bs :=
  List.filterMap_append ..

theorem framesShown_concat {φ : Type} (log : List (Entry φ)) {x : Entry φ}
    (hx : x.moment.frame? = none) : framesShown (log ++ [x]) = framesShown log := by
  have hnil : framesShown [x] = [] := List.filterMap_eq_nil_iff.2 (by simpa using hx)
  rw [framesShown_append, hnil, List.append_nil]

/-- The frames of a response are shown by its acts. -/
theorem Response.frames_eq {σ φ : Type} (r : Response σ φ) :
    (r.acts.map Act.moment).filterMap Moment.frame? = r.frames := by
  rw [frames, List.filterMap_map]
  congr 1
  funext act
  cases act <;> rfl

/-! ## Endings -/

/-- A walk that is left early does not end as done. -/
theorem Halt.ending_ne_done (halt : Halt) : halt.ending ≠ .done := by
  cases halt with
  | interrupted i => cases i <;> exact nofun
  | _ => exact nofun

/-- A verdict for which a walk is left is not to go on, and decides how the run ends. -/
theorem Verdict.ending_of_halt? {v : Verdict} {halt : Halt} (hv : v.halt? = some halt) :
    v ≠ .goOn ∧ halt.ending = v.ending := by
  cases v with
  | goOn => cases hv
  | _ => obtain rfl := Option.some.inj hv; exact ⟨nofun, rfl⟩

/-- Only a verdict to go on leaves a run to be done. -/
theorem Verdict.ending_ne_done {v : Verdict} (hv : v ≠ .goOn) : v.ending ≠ .done := by
  cases v with
  | goOn => exact absurd rfl hv
  | _ => exact nofun

theorem Verdict.ending_eq_outcome_iff {v : Verdict} {o : Outcome} :
    v.ending = .outcome o ↔ v = .ended o := by
  cases v <;> simp [ending]

namespace Run

variable {σ φ α : Type}

/-! ## The verdicts in a walk -/

/-- What the verdicts on some instructions were if the walk was then left for this: to go on
after each, or after each but the last, for which it was left. -/
def Accounts (g : Game σ φ) (start : σ) (ops : List Op) : Option Halt → Prop
  | none => g.GoesThrough ops start
  | some .stopped => g.GoesThrough ops start
  | some halt => ∃ earlier op, ops = earlier ++ [op] ∧ g.GoesThrough earlier start ∧
      (g.apply op (g.after earlier start)).verdict.halt? = some halt

/-- A stretch at a place where the walk looks for stops, with the verdicts and the frames up
to there; `first` are the frames of the reset. -/
structure Judged (g : Game σ φ) (first : List φ) (start : σ) (r : Stretch σ φ α) : Prop where
  settled : Settled g start r
  plain : ∀ op ∈ applications r.1.history, op.isLoop = false
  accounts : Accounts g start (applications r.1.history) r.2
  frames : framesShown r.1.history =
    first ++ g.framesAlong (applications r.1.history) start

variable {g : Game σ φ} {first : List φ} {start : σ}

theorem frame?_eq_none_of_isPassing {m : Moment φ} (hm : m.IsPassing) :
    m.frame? = none := by
  cases m <;> first | rfl | exact hm.elim

/-- A passing moment is no verdict and shows no frame. -/
theorem Judged.tell {w : World σ φ α} (hw : Judged g first start (w, none)) (h : Host α φ)
    {m : Moment φ} (hm : m.IsPassing) (hun : w.stopped = false ∨ m = .yielded) :
    Judged g first start (w.tell h m, none) := by
  have happs : applications (w.tell h m).history = applications w.history := by
    rw [World.history_tell, applications_concat _ hm.applying?_eq_none]
  have hframes : framesShown (w.tell h m).history = framesShown w.history := by
    rw [World.history_tell, framesShown_concat _ (frame?_eq_none_of_isPassing hm)]
  refine ⟨hw.settled.tell h hm hun, happs ▸ hw.plain, happs ▸ hw.accounts, ?_⟩
  show framesShown (w.tell h m).history = _
  rw [hframes, happs]
  exact hw.frames

/-- The frames shown while an instruction is announced and applied. -/
theorem framesShown_applied (g : Game σ φ) (h : Host α φ) (op : Op) (w : World σ φ α) :
    framesShown (applied g h op (w.tell h (.step op))).history =
      framesShown w.history ++ (g.apply op w.state).frames := by
  obtain ⟨acts, hhist, hacts, -⟩ := World.exists_history_tellAll h
    ((g.apply op w.state).acts.map Act.moment) ((w.tell h (.step op)).tell h (.applying op))
  rw [applied, World.put_history, World.tell_state, hhist, World.history_tell,
    World.history_tell, framesShown_append, framesShown_concat _ rfl, framesShown_concat _ rfl,
    framesShown_eq acts, hacts, Response.frames_eq]

/-- The verdict on an instruction decides whether the walk is left after it. -/
theorem Judged.applied {w : World σ φ α} (hw : Judged g first start (w, none))
    (hun : w.stopped = false) (h : Host α φ) {op : Op} (hop : op.isLoop = false) :
    Judged g first start
      (applied g h op (w.tell h (.step op)), (g.apply op w.state).verdict.halt?) := by
  have happs := applications_applied g h op w
  have hstate : w.state = g.after (applications w.history) start := hw.settled.state
  refine ⟨hw.settled.applied hun h hop, fun x hx => ?_, ?_, ?_⟩
  · rw [happs, List.mem_append, List.mem_singleton] at hx
    rcases hx with hx | rfl
    · exact hw.plain x hx
    · exact hop
  · show Accounts g start (applications (Run.applied g h op (w.tell h (.step op))).history) _
    rw [happs]
    cases hv : (g.apply op w.state).verdict.halt? with
    | none =>
      refine Game.GoesThrough.concat hw.accounts ?_
      rw [← hstate]
      exact Verdict.halt?_eq_none_iff.1 hv
    | some halt =>
      have hlast : ∃ earlier x, applications w.history ++ [op] = earlier ++ [x] ∧
          g.GoesThrough earlier start ∧
          (g.apply x (g.after earlier start)).verdict.halt? = some halt :=
        ⟨_, op, rfl, hw.accounts, by rw [← hstate]; exact hv⟩
      cases halt with
      | stopped => cases hverdict : (g.apply op w.state).verdict <;> simp [hverdict, Verdict.halt?] at hv
      | _ => exact hlast
  · show framesShown (Run.applied g h op (w.tell h (.step op))).history =
      first ++ g.framesAlong (applications (Run.applied g h op (w.tell h (.step op))).history) start
    rw [happs, framesShown_applied, g.framesAlong_concat hw.plain, ← hstate, ← List.append_assoc]
    exact congrArg (· ++ (g.apply op w.state).frames) hw.frames

theorem Judged.perform {w : World σ φ α} (hw : Judged g first start (w, none))
    (hun : w.stopped = false) (h : Host α φ) {op : Op} (hop : op.isLoop = false) :
    Judged g first start (perform g h op (w.tell h (.step op))) := by
  have happlied := hw.applied hun h hop
  rw [perform_eq, World.tell_state]
  refine Stretch.andThen_keeps happlied fun v hv => ?_
  rcases pause_eq h op v with hp | ⟨hun, d, hp⟩
  · rw [hp]
    exact hv
  · rw [hp]
    exact hv.tell h trivial (Or.inl hun)

/-- The verdicts are accounted for after any walk. -/
theorem judged_walk (h : Host α φ) (ops : List Op) {w : World σ φ α}
    (hw : Judged g first start (w, none)) : Judged g first start (walk g h ops w) :=
  walk_induction (C := Judged g first start)
    (fun _ hv _ => ⟨hv.settled.leave, hv.plain, hv.accounts, hv.frames⟩)
    (fun _ _ _ _ hv hun => hv.tell h rfl (Or.inl hun))
    (fun _ hv => hv.tell h trivial (Or.inr rfl))
    (fun _ _ hop hv hun => hv.perform hun h hop) ops hw

/-- What is on record when the walk begins. -/
theorem exists_history_launch (g : Game σ φ) (h : Host α φ) (initial : σ) (host : α) :
    ∃ opening launched, (launch g h initial host).history = opening ++ [launched] ∧
      opening.map Entry.moment = (g.reset initial).1.map Moment.shown ++ [.status .running] ∧
      (∀ e ∈ opening, e.phase = .unlaunched) ∧
      launched.moment = .launched ∧ launched.phase = .walking := by
  obtain ⟨frames, hhist, hmoments, hphase⟩ := World.exists_history_tellAll h
    ((g.reset initial).1.map Moment.shown) (World.fresh (g.reset initial).2 host : World σ φ α)
  set v := (World.fresh (g.reset initial).2 host : World σ φ α).tellAll h
    ((g.reset initial).1.map Moment.shown) with hv
  refine ⟨frames ++ [v.entry h (.status .running)],
    ((v.tell h (.status .running)).enter .walking).entry h .launched, ?_, ?_, ?_, rfl, rfl⟩
  · rw [launch_eq, ← hv, World.history_tell, World.enter_history, World.history_tell, hhist,
      World.fresh_history, List.nil_append]
  · rw [List.map_append, hmoments]
    rfl
  · intro e he
    rcases List.mem_append.1 he with he | he
    · exact hphase e he
    · rw [List.mem_singleton.1 he]
      exact World.tellAll_phase h _ _

/-- Before the run is handed over there are only the frames of the reset, and that the run goes. -/
theorem moment_of_opening {opening : List (Entry φ)} {frames : List φ}
    (hopening : opening.map Entry.moment = frames.map Moment.shown ++ [.status .running])
    {e : Entry φ} (he : e ∈ opening) :
    e.moment = .status .running ∨ ∃ frame, e.moment = .shown frame := by
  have hmem : e.moment ∈ opening.map Entry.moment := List.mem_map_of_mem he
  rw [hopening, List.mem_append, List.mem_map, List.mem_singleton] at hmem
  rcases hmem with ⟨frame, -, hframe⟩ | hstatus
  · exact Or.inr ⟨frame, hframe.symm⟩
  · exact Or.inl hstatus

/-- Nothing is applied before the run is handed over. -/
theorem applying?_eq_none_of_opening {opening : List (Entry φ)} {frames : List φ}
    (hopening : opening.map Entry.moment = frames.map Moment.shown ++ [.status .running]) :
    ∀ e ∈ opening, e.moment.applying? = none := by
  intro e he
  rcases moment_of_opening hopening he with hm | ⟨frame, hm⟩ <;> rw [hm] <;> rfl

theorem applications_launch (g : Game σ φ) (h : Host α φ) (initial : σ) (host : α) :
    applications (launch g h initial host).history = [] := by
  obtain ⟨opening, launched, hhist, hmoments, -, hlaunched, -⟩ :=
    exists_history_launch g h initial host
  rw [hhist, applications_concat _ (by rw [hlaunched]; rfl)]
  exact applications_eq_nil (applying?_eq_none_of_opening hmoments)

theorem judged_launch (g : Game σ φ) (h : Host α φ) (initial : σ) (host : α) :
    Judged g (g.reset initial).1 (g.reset initial).2 (launch g h initial host, none) := by
  have happs := applications_launch g h initial host
  refine ⟨settled_launch g h initial host, ?_, ?_, ?_⟩
  · rw [happs]
    exact fun op hop => (List.not_mem_nil hop).elim
  · show Accounts g _ (applications (launch g h initial host).history) none
    rw [happs]
    exact g.goesThrough_nil _
  · rw [happs]
    obtain ⟨opening, launched, hhist, hmoments, -, hlaunched, -⟩ :=
      exists_history_launch g h initial host
    have hfirst : (g.reset initial).1.filterMap (fun frame => (Moment.shown frame).frame?) =
        (g.reset initial).1 := List.filterMap_some
    rw [hhist, framesShown_concat _ (by rw [hlaunched]; rfl), framesShown_eq, hmoments,
      List.filterMap_append, List.filterMap_map]
    exact congrArg (· ++ []) hfirst

/-! ## The verdicts in a run -/

theorem applications_run (g : Game σ φ) (h : Host α φ) (p : Program) (initial : σ) (host : α) :
    applications (run g h p initial host).log =
      applications (walk g h p.ops (launch g h initial host)).1.history := by
  obtain ⟨last, hlog, hlast, -⟩ := exists_log_run g h p initial host
  have hnone : applications last = [] :=
    applications_eq_nil fun e he => (of_mem_moments (hlast ▸ List.mem_map_of_mem he)).2.1
  rw [hlog, applications_append, hnone, List.append_nil]

/-- **The frames of a run** are those of the reset, and then those of each instruction
applied. -/
theorem frames_run (g : Game σ φ) (h : Host α φ) (p : Program) (initial : σ) (host : α) :
    framesShown (run g h p initial host).log =
      (g.reset initial).1 ++
        g.framesAlong (applications (run g h p initial host).log) (g.reset initial).2 := by
  obtain ⟨last, hlog, hlast, -⟩ := exists_log_run g h p initial host
  have hnone : framesShown last = [] := by
    rw [framesShown_eq, hlast]
    cases (run g h p initial host).ending <;> rfl
  rw [applications_run, hlog, framesShown_append, hnone, List.append_nil]
  exact (judged_walk h p.ops (judged_launch g h initial host)).frames

/-- A run that is done was not stopped. -/
theorem unstopped_of_done {g : Game σ φ} {h : Host α φ} {p : Program} {initial : σ} {host : α}
    (hdone : (run g h p initial host).ending = .done) :
    (run g h p initial host).Unstopped := by
  have hending : (walk g h p.ops (launch g h initial host)).ending = .done := by
    rw [← hdone, run_eq]
    rfl
  rw [unstopped_run_iff]
  unfold Stretch.ending at hending
  split at hending
  · exact absurd hending (Halt.ending_ne_done _)
  · split at hending
    · cases hending
    · rename_i hstopped
      exact Bool.eq_false_iff.2 hstopped

/-- A run that is done has gone through the whole unrolling of its program. -/
theorem goesThrough_of_done {g : Game σ φ} {h : Host α φ} {p : Program} {initial : σ} {host : α}
    (hdone : (run g h p initial host).ending = .done) :
    g.GoesThrough (Op.unrolledAll p.ops) (g.reset initial).2 ∧
      (run g h p initial host).state = g.after (Op.unrolledAll p.ops) (g.reset initial).2 := by
  obtain ⟨-, hstate, hending⟩ := run_of_unstopped g h p initial host (unstopped_of_done hdone)
  obtain ⟨walked, -, -, hafter, hwalked⟩ :=
    g.tour_spec (Op.unrolledAll p.ops) (g.reset initial).2
  rcases hwalked with ⟨rfl, hthrough, -⟩ | ⟨before, last, -, -, -, hne, -⟩
  · exact ⟨hthrough, hstate.trans hafter⟩
  · exact absurd (hending.symm.trans hdone) (Verdict.ending_ne_done hne)

/-- No loop is ever applied. -/
theorem isLoop_eq_false_of_mem_applications {g : Game σ φ} {h : Host α φ} {p : Program}
    {initial : σ} {host : α} {op : Op}
    (hop : op ∈ applications (run g h p initial host).log) : op.isLoop = false := by
  rw [applications_run] at hop
  exact (judged_walk h p.ops (judged_launch g h initial host)).plain op hop

/-- No loop is among the instructions applied. -/
theorem isLoop_eq_false_of_applications {g : Game σ φ} {h : Host α φ} {p : Program} {initial : σ}
    {host : α} {earlier : List Op} {op : Op} {later : List Op}
    (hsplit : applications (run g h p initial host).log = earlier ++ op :: later) :
    op.isLoop = false :=
  isLoop_eq_false_of_mem_applications
    (hsplit ▸ List.mem_append_right earlier (List.mem_cons_self ..))

/-- **The verdicts in a run.**  The game went on after every instruction applied, and the run
was done or stopped; or it went on after all but the last, and the run ended with the
verdict on that. -/
theorem verdicts_run (g : Game σ φ) (h : Host α φ) (p : Program) (initial : σ) (host : α) :
    (g.GoesThrough (applications (run g h p initial host).log) (g.reset initial).2 ∧
        ((run g h p initial host).ending = .done ∨ (run g h p initial host).ending = .stopped)) ∨
      ∃ earlier op, applications (run g h p initial host).log = earlier ++ [op] ∧
        g.GoesThrough earlier (g.reset initial).2 ∧
        (g.apply op (g.after earlier (g.reset initial).2)).verdict ≠ .goOn ∧
        (run g h p initial host).ending =
          (g.apply op (g.after earlier (g.reset initial).2)).verdict.ending := by
  have hjudged := (judged_walk h p.ops (judged_launch g h initial host)).accounts
  have hending : (run g h p initial host).ending =
      (walk g h p.ops (launch g h initial host)).ending := by rw [run_eq]; rfl
  rw [applications_run, hending, Stretch.ending]
  set r := walk g h p.ops (launch g h initial host)
  cases hhalt : r.2 with
  | none =>
    rw [hhalt] at hjudged
    refine Or.inl ⟨hjudged, ?_⟩
    cases r.1.stopped
    · exact Or.inl rfl
    · exact Or.inr rfl
  | some halt =>
    rw [hhalt] at hjudged
    cases halt with
    | stopped => exact Or.inl ⟨hjudged, Or.inr rfl⟩
    | _ =>
      obtain ⟨earlier, op, happs, hthrough, hv⟩ := hjudged
      obtain ⟨hne, hends⟩ := Verdict.ending_of_halt? hv
      exact Or.inr ⟨earlier, op, happs, hthrough, hne, hends⟩

/-- The game went on after every instruction in front of one that was applied. -/
theorem goesThrough_of_applications {g : Game σ φ} {h : Host α φ} {p : Program} {initial : σ}
    {host : α} {earlier : List Op} {op : Op} {later : List Op}
    (hsplit : applications (run g h p initial host).log = earlier ++ op :: later) :
    g.GoesThrough earlier (g.reset initial).2 := by
  rcases verdicts_run g h p initial host with ⟨hthrough, -⟩ | ⟨first, last, happs, hthrough, -, -⟩
  · rw [hsplit] at hthrough
    exact hthrough.left
  · rcases eq_of_concat_eq (happs.symm.trans hsplit) with ⟨rfl, -, -⟩ | ⟨rest, -, rfl⟩
    · exact hthrough
    · exact hthrough.left

/-- An instruction after which the game did not go on is the last one applied, and the run ended
with the verdict on it. -/
theorem ending_of_verdict_ne {g : Game σ φ} {h : Host α φ} {p : Program} {initial : σ} {host : α}
    {earlier : List Op} {op : Op} {later : List Op}
    (hsplit : applications (run g h p initial host).log = earlier ++ op :: later)
    (hne : (g.apply op (g.after earlier (g.reset initial).2)).verdict ≠ .goOn) :
    later = [] ∧ (run g h p initial host).ending =
      (g.apply op (g.after earlier (g.reset initial).2)).verdict.ending := by
  have hop := isLoop_eq_false_of_applications hsplit
  rcases verdicts_run g h p initial host with ⟨hthrough, -⟩ | ⟨first, last, happs, hthrough, -, hend⟩
  · exact absurd (hthrough earlier op later hsplit hop) hne
  · rcases eq_of_concat_eq (happs.symm.trans hsplit) with ⟨rfl, rfl, rfl⟩ | ⟨rest, -, hfirst⟩
    · exact ⟨rfl, hend⟩
    · exact absurd (hthrough earlier op rest hfirst hop) hne

/-- A run ends with an outcome exactly if that was the verdict on the last instruction
applied. -/
theorem ending_run_eq_outcome_iff (g : Game σ φ) (h : Host α φ) (p : Program) (initial : σ)
    (host : α) (o : Outcome) :
    (run g h p initial host).ending = .outcome o ↔
      ∃ earlier op, applications (run g h p initial host).log = earlier ++ [op] ∧
        (g.apply op (g.after earlier (g.reset initial).2)).verdict = .ended o := by
  constructor
  · intro houtcome
    rcases verdicts_run g h p initial host with ⟨-, hend⟩ | ⟨earlier, op, happs, -, -, hend⟩
    · rw [houtcome] at hend
      rcases hend with hend | hend <;> cases hend
    · exact ⟨earlier, op, happs, Verdict.ending_eq_outcome_iff.1 (hend.symm.trans houtcome)⟩
  · rintro ⟨earlier, op, happs, hv⟩
    obtain ⟨-, hend⟩ := ending_of_verdict_ne happs (by rw [hv]; exact nofun)
    exact hend.trans (Verdict.ending_eq_outcome_iff.2 hv)

/-- If a run does not end with an outcome, that was the verdict on none of the instructions
applied. -/
theorem verdict_ne_ended {g : Game σ φ} {h : Host α φ} {p : Program} {initial : σ} {host : α}
    {o : Outcome} (hending : (run g h p initial host).ending ≠ .outcome o) {earlier : List Op}
    {op : Op} {later : List Op}
    (hsplit : applications (run g h p initial host).log = earlier ++ op :: later) :
    (g.apply op (g.after earlier (g.reset initial).2)).verdict ≠ .ended o := by
  intro hv
  obtain ⟨-, hend⟩ := ending_of_verdict_ne hsplit (by rw [hv]; exact nofun)
  exact hending (hend.trans (Verdict.ending_eq_outcome_iff.2 hv))

end Run

end BlockRobot
