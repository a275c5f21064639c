import BlockRobot.Proofs.Run.Likeness
import BlockRobot.Proofs.Run.Pausing
import BlockRobot.Proofs.Run.Record
import BlockRobot.Proofs.Run.Unrolling

/-!
# Stopping a run

A stop can be asked for at any moment of a run.  The first one asked for while the run is
walking counts, and this file says what comes after it.

## What may still happen

At every moment of a walk at most one instruction is *under way* (`underWay?`): announced,
no loop, and not done yet.  After the stop nothing more is announced.  The instruction under
way is applied to its end, for the walk does not look at stops between announcing and
applying; if the game goes on after it, or if nothing was under way, the run ends as
stopped, and otherwise it ends with the verdict on that instruction.

## The invariant

`Settled` describes the stretches of a walk at the places where the walk looks whether it
has been stopped.  Either no stop that counts is on record, or the record splits at the
first of them, and `Aftermath` describes what stands behind it and why the walk may be left.
Announcing a loop, yielding and performing an instruction keep it (`settled_walk`): in a
walk that has been stopped nothing but a yield is added to the record, so the real work is
to find the place of the stop among the moments of one instruction (`Settled.perform`).
-/

namespace BlockRobot

namespace Run

variable {σ φ α : Type}

/-! ## The invariant -/

/-- Why a walk may be left that was stopped while an instruction was under way on which this
is the verdict: because of the verdict, or, if that is to go on, because of the stop. -/
def LeftBy (v : Verdict) (halt : Option Halt) : Prop :=
  if v = .goOn then halt = none ∨ halt = some .stopped else halt = v.halt?

/-- The verdict on the instruction under way, which is the last one applied; to go on, if
none is under way. -/
def VerdictOn (g : Game σ φ) (start : σ) (applied : List Op) : Option Op → Verdict → Prop
  | none, v => v = .goOn
  | some op, v => ∃ earlier, applied = earlier ++ [op] ∧
      v = (g.apply op (g.after earlier start)).verdict

/-- What stands behind the first stop that counts, and why the walk may be left. -/
structure Aftermath (g : Game σ φ) (start : σ) (before : List (Entry φ)) (e : Entry φ)
    (after : List (Entry φ)) (halt : Option Halt) : Prop where
  no_step : ∀ x ∈ after, x.moment.step? = none
  application : applications after = [] ∨
    ∃ op, e.moment = .step op ∧ op.isLoop = false ∧ applications after = [op]
  pause : ∀ d, e.moment = .paused d → ∀ x ∈ after, x.moment = .yielded
  left : ∃ v, VerdictOn g start (applications (before ++ e :: after))
    (underWay? before e.moment) v ∧ LeftBy v halt

/-- A stretch at a place where the walk looks for stops. -/
structure Settled (g : Game σ φ) (start : σ) (r : Stretch σ φ α) : Prop where
  remembers : r.1.Remembers
  not_done : ∀ x ∈ r.1.history, x.moment.reportsDone = false
  state : r.1.state = g.after (applications r.1.history) start
  aftermath : ∀ before e after, r.1.history = before ++ e :: after → Quiet before →
    e.effective = true → Aftermath g start before e after r.2

theorem leftBy_halt? (v : Verdict) : LeftBy v v.halt? := by
  rw [LeftBy]
  split
  · rename_i hgo
    exact Or.inl (Verdict.halt?_eq_none_iff.2 hgo)
  · rfl

theorem LeftBy.leave {v : Verdict} (hv : LeftBy v none) : LeftBy v (some .stopped) := by
  by_cases hgo : v = .goOn
  · rw [LeftBy, if_pos hgo]
    exact Or.inr rfl
  · rw [LeftBy, if_neg hgo] at hv
    exact absurd (Verdict.halt?_eq_none_iff.1 hv.symm) hgo

variable {g : Game σ φ} {start : σ}

/-- In a walk that has not been stopped no stop that counts is on record. -/
theorem Settled.quiet {w : World σ φ α} {halt : Option Halt} (hw : Settled g start (w, halt))
    (hun : w.stopped = false) : Quiet w.history := by
  have hany : w.history.any Entry.effective = false := hw.remembers.symm.trans hun
  intro e he
  simpa using List.any_eq_false.1 hany e he

/-! ### What keeps it -/

/-- A walk that has been stopped can be left for that. -/
theorem Settled.leave {w : World σ φ α} (hw : Settled g start (w, none)) :
    Settled g start (w, some .stopped) := by
  refine ⟨hw.remembers, hw.not_done, hw.state, fun before e after hsplit hquiet he => ?_⟩
  obtain ⟨hstep, happ, hpause, v, hv, hleft⟩ := hw.aftermath before e after hsplit hquiet he
  exact ⟨hstep, happ, hpause, v, hv, hleft.leave⟩

/-- A passing moment keeps the invariant.  It may be that of the first stop; behind a stop
it can only be a yield. -/
theorem Settled.tell {w : World σ φ α} (hw : Settled g start (w, none)) (h : Host α φ)
    {m : Moment φ} (hm : m.IsPassing) (hun : w.stopped = false ∨ m = .yielded) :
    Settled g start (w.tell h m, none) := by
  have happs : applications (w.tell h m).history = applications w.history := by
    rw [World.history_tell, applications_concat _ hm.applying?_eq_none]
  refine ⟨hw.remembers.tell h m, ?_, ?_, ?_⟩
  · intro x hx
    rw [World.history_tell, List.mem_append, List.mem_singleton] at hx
    rcases hx with hx | rfl
    · exact hw.not_done x hx
    · exact hm.reportsDone_eq_false
  · rw [happs]
    exact hw.state
  · intro before e after hsplit hquiet he
    have hsplit' := hsplit
    rw [World.history_tell] at hsplit'
    rcases eq_of_concat_eq hsplit' with ⟨rfl, rfl, rfl⟩ | ⟨later, rfl, hlog⟩
    · refine ⟨by simp, Or.inl rfl, by simp, .goOn, ?_, leftBy_halt? .goOn⟩
      rw [World.entry_moment, hm.underWay?_eq_none]
      rfl
    · obtain ⟨hstep, happ, hpause, v, hv, hleft⟩ := hw.aftermath before e later hlog hquiet he
      have hyield : m = .yielded := by
        refine hun.resolve_left fun hun => ?_
        have hmem : e ∈ w.history := hlog ▸ List.mem_append_right before (List.mem_cons_self ..)
        exact absurd ((hw.quiet hun e hmem).symm.trans he) (by simp)
      subst hyield
      have hlater : ∀ x ∈ later ++ [w.entry h .yielded], x ∈ later ∨ x.moment = .yielded := by
        intro x hx
        rw [List.mem_append, List.mem_singleton] at hx
        exact hx.imp_right fun hx => by rw [hx]; rfl
      refine ⟨?_, ?_, ?_, v, ?_, hleft⟩
      · intro x hx
        rcases hlater x hx with hx | hx
        · exact hstep x hx
        · rw [hx]
          rfl
      · rw [applications_concat later rfl]
        exact happ
      · intro d hd x hx
        exact (hlater x hx).elim (hpause d hd x) id
      · rw [← hsplit, happs, hlog]
        exact hv

/-- What is put on record while an instruction is announced and applied. -/
theorem exists_history_applied (g : Game σ φ) (h : Host α φ) (op : Op) (w : World σ φ α) :
    ∃ step applying acts, (applied g h op (w.tell h (.step op))).history =
        w.history ++ step :: applying :: acts ∧
      step.moment = .step op ∧ applying.moment = .applying op ∧
      ∀ x ∈ acts, x.moment.IsAct := by
  obtain ⟨acts, hhist, hacts, -⟩ := World.exists_history_tellAll h
    ((g.apply op w.state).acts.map Act.moment) ((w.tell h (.step op)).tell h (.applying op))
  refine ⟨w.entry h (.step op), (w.tell h (.step op)).entry h (.applying op), acts, ?_, rfl,
    rfl, fun x hx => ?_⟩
  · rw [applied, World.put_history, World.tell_state, hhist, World.history_tell, World.history_tell,
      List.append_assoc, List.append_assoc]
    rfl
  · have hmem : x.moment ∈ acts.map Entry.moment := List.mem_map_of_mem hx
    rw [hacts, List.mem_map] at hmem
    obtain ⟨a, -, ha⟩ := hmem
    rw [← ha]
    exact Moment.isAct_moment a

/-- An instruction announced and applied is the last one of which the application is on
record. -/
theorem applications_applied (g : Game σ φ) (h : Host α φ) (op : Op) (w : World σ φ α) :
    applications (applied g h op (w.tell h (.step op))).history =
      applications w.history ++ [op] := by
  obtain ⟨step, applying, acts, hhist, hstep, happlying, hacts⟩ :=
    exists_history_applied g h op w
  have hnone : applications acts = [] := applications_eq_nil fun x hx =>
    (hacts x hx).applying?_eq_none
  rw [hhist, applications_append, applications_cons_of_none (by rw [hstep]; rfl),
    applications_cons_of_some (by rw [happlying]; rfl), hnone]

/-- The last announcement in a record is not hidden by entries that announce nothing. -/
theorem announced?_append {as bs : List (Entry φ)} {x : Entry φ} {op : Op}
    (hx : x.moment = .step op) (hbs : ∀ y ∈ bs, y.moment.step? = none) :
    announced? (as ++ x :: bs) = some op := by
  have hnil : bs.filterMap (fun y => y.moment.step?) = [] := List.filterMap_eq_nil_iff.2 hbs
  rw [announced?, List.filterMap_append, List.filterMap_cons, hx, hnil]
  simp

/-- **Announcing and applying an instruction keeps the invariant.**  If the first stop falls
between, the instruction is the one under way. -/
theorem Settled.applied {w : World σ φ α} (hw : Settled g start (w, none))
    (hun : w.stopped = false) (h : Host α φ) {op : Op} (hop : op.isLoop = false) :
    Settled g start
      (applied g h op (w.tell h (.step op)), (g.apply op w.state).verdict.halt?) := by
  obtain ⟨step, applying, acts, hhist, hstep, happlying, hacts⟩ :=
    exists_history_applied g h op w
  have hnone : applications acts = [] := applications_eq_nil fun x hx =>
    (hacts x hx).applying?_eq_none
  have happs := applications_applied g h op w
  have hleft : ∃ v, VerdictOn g start
      (applications (Run.applied g h op (w.tell h (.step op))).history) (some op) v ∧
      LeftBy v (g.apply op w.state).verdict.halt? :=
    ⟨_, ⟨_, happs, by rw [← hw.state]⟩, leftBy_halt? _⟩
  refine ⟨((hw.remembers.tell h _).tell h _).tellAll h _, ?_, ?_, ?_⟩
  · intro x hx
    rw [hhist, List.mem_append, List.mem_cons, List.mem_cons] at hx
    rcases hx with hx | rfl | rfl | hx
    · exact hw.not_done x hx
    · rw [hstep]; rfl
    · rw [happlying]; rfl
    · exact (hacts x hx).reportsDone_eq_false
  · rw [happs, g.after_concat hop, ← hw.state]
    rfl
  · intro before e after hsplit hquiet he
    have hsplit' := hsplit
    rw [hhist] at hsplit'
    obtain ⟨mid, rfl, hmid⟩ := (hw.quiet hun).exists_of_append_eq he hsplit'
    rw [hsplit] at hleft
    -- the stop falls when the instruction is announced, or applied, or during an act of it
    rcases mid with - | ⟨_, - | ⟨_, mid⟩⟩
    · obtain ⟨rfl, rfl⟩ := List.cons.inj hmid
      have hunder : underWay? (w.history ++ []) step.moment = some op := by
        rw [hstep]
        exact if_neg (by simp [hop])
      refine ⟨fun x hx => ?_, Or.inr ⟨op, hstep, hop, ?_⟩, fun d hd => ?_, hunder ▸ hleft⟩
      · rcases List.mem_cons.1 hx with rfl | hx
        · rw [happlying]; rfl
        · exact (hacts x hx).step?_eq_none
      · rw [applications_cons_of_some (by rw [happlying]; rfl), hnone]
      · rw [hstep] at hd
        cases hd
    · obtain ⟨rfl, htail⟩ := List.cons.inj hmid
      obtain ⟨rfl, rfl⟩ := List.cons.inj htail
      have hunder : underWay? (w.history ++ [step]) applying.moment = some op := by
        rw [happlying]
        rfl
      refine ⟨fun x hx => (hacts x hx).step?_eq_none, Or.inl hnone, fun d hd => ?_,
        hunder ▸ hleft⟩
      rw [happlying] at hd
      cases hd
    · obtain ⟨rfl, htail⟩ := List.cons.inj hmid
      obtain ⟨rfl, rfl⟩ := List.cons.inj htail
      have hact : e.moment.IsAct := hacts e (List.mem_append_right mid (List.mem_cons_self ..))
      have hafter : ∀ x ∈ after, x.moment.IsAct := fun x hx =>
        hacts x (List.mem_append_right mid (List.mem_cons_of_mem e hx))
      have hunder : underWay? (w.history ++ step :: applying :: mid) e.moment = some op := by
        rw [hact.underWay?_eq]
        refine announced?_append hstep fun y hy => ?_
        rcases List.mem_cons.1 hy with rfl | hy
        · rw [happlying]; rfl
        · exact (hacts y (List.mem_append_left _ hy)).step?_eq_none
      refine ⟨fun x hx => (hafter x hx).step?_eq_none,
        Or.inl (applications_eq_nil fun x hx => (hafter x hx).applying?_eq_none),
        fun d hd => ?_, hunder ▸ hleft⟩
      rw [hd] at hact
      exact hact.elim

/-- Performing an instruction keeps the invariant. -/
theorem Settled.perform {w : World σ φ α} (hw : Settled g start (w, none))
    (hun : w.stopped = false) (h : Host α φ) {op : Op} (hop : op.isLoop = false) :
    Settled g start (perform g h op (w.tell h (.step op))) := by
  have hperf := hw.applied hun h hop
  rw [perform_eq, World.tell_state]
  show Settled g start (Stretch.andThen
    (Run.applied g h op (w.tell h (.step op)), (g.apply op w.state).verdict.halt?)
    fun v => (pause h op v, none))
  cases hv : (g.apply op w.state).verdict.halt? with
  | some halt =>
    rw [hv] at hperf
    exact hperf
  | none =>
    rw [hv] at hperf
    rcases pause_eq h op (Run.applied g h op (w.tell h (.step op))) with hp | ⟨hun, d, hp⟩
    · rw [Stretch.andThen_none, hp]
      exact hperf
    · rw [Stretch.andThen_none, hp]
      exact hperf.tell h trivial (Or.inl hun)

/-- **The invariant holds after any walk.** -/
theorem settled_walk (h : Host α φ) (ops : List Op) {w : World σ φ α}
    (hw : Settled g start (w, none)) : Settled g start (walk g h ops w) :=
  walk_induction (C := Settled g start) (fun _ hv _ => hv.leave)
    (fun _ _ _ _ hv hun => hv.tell h rfl (Or.inl hun))
    (fun _ hv => hv.tell h trivial (Or.inr rfl))
    (fun _ _ hop hv hun => hv.perform hun h hop) ops hw

/-- The invariant holds when the walk begins. -/
theorem settled_launch (g : Game σ φ) (h : Host α φ) (initial : σ) (host : α) :
    Settled g (g.reset initial).2 (launch g h initial host, none) := by
  set v : World σ φ α := ((World.fresh (g.reset initial).2 host).tellAll h
    ((g.reset initial).1.map Moment.shown)).tell h (.status .running) with hv
  obtain ⟨frames, hhist, hframes, hphase⟩ := World.exists_history_tellAll h
    ((g.reset initial).1.map Moment.shown) (World.fresh (g.reset initial).2 host : World σ φ α)
  have hentry : ∀ x ∈ v.history, x.phase = .unlaunched ∧
      (x.moment = .status .running ∨ ∃ frame, x.moment = .shown frame) := by
    intro x hx
    rw [hv, World.history_tell, hhist, World.fresh_history, List.nil_append, List.mem_append,
      List.mem_singleton] at hx
    rcases hx with hx | rfl
    · refine ⟨hphase x hx, Or.inr ?_⟩
      have hmem : x.moment ∈ frames.map Entry.moment := List.mem_map_of_mem hx
      rw [hframes, List.mem_map] at hmem
      obtain ⟨frame, -, hframe⟩ := hmem
      exact ⟨frame, hframe.symm⟩
    · exact ⟨World.tellAll_phase h _ _, Or.inl rfl⟩
  have hquiet : Quiet v.history := quiet_of_ne_walking fun x hx => by simp [(hentry x hx).1]
  have hremembers : v.Remembers := by
    have hfresh : (World.fresh (g.reset initial).2 host : World σ φ α).Remembers := rfl
    exact (hfresh.tellAll h _).tell h _
  have happs : applications v.history = [] := by
    refine applications_eq_nil fun x hx => ?_
    rcases (hentry x hx).2 with hm | ⟨frame, hm⟩ <;> rw [hm] <;> rfl
  have hsettled : Settled g (g.reset initial).2 (v.enter .walking, none) := by
    refine ⟨hremembers, ?_, ?_, ?_⟩
    · intro x hx
      rcases (hentry x hx).2 with hm | ⟨frame, hm⟩ <;> rw [hm] <;> rfl
    · rw [World.enter_history, happs, World.enter_state, hv, World.tell_state,
        World.tellAll_state, World.fresh_state, Game.after_nil]
    · intro before e after hsplit _ he
      have hmem : e ∈ v.history := hsplit ▸ List.mem_append_right before (List.mem_cons_self ..)
      exact absurd ((hquiet e hmem).symm.trans he) (by simp)
  have hun : v.stopped = false := by
    rw [hremembers]
    exact hquiet.any_eq_false
  rw [launch_eq]
  exact hsettled.tell h trivial (Or.inl hun)

/-! ## The end of a run -/

/-- A run heeded the stop in an entry, its record being what stood before, the entry, and
what stands behind: nothing more was announced, only an instruction announced there was
still applied, a pause was over there, the program was not called done, and the run ended
with the verdict on the instruction under way, or as stopped if the game was to go on. -/
structure Heeded (g : Game σ φ) (start : σ) (before : List (Entry φ)) (e : Entry φ)
    (after : List (Entry φ)) (ending : Ending) : Prop where
  no_step : ∀ x ∈ after, x.moment.step? = none
  application : applications after = [] ∨
    ∃ op, e.moment = .step op ∧ op.isLoop = false ∧ applications after = [op]
  pause : ∀ d, e.moment = .paused d →
    ∀ x ∈ after, x.moment = .yielded ∨ x.moment = .status .stopped
  not_done : ∀ x ∈ before ++ e :: after, x.moment.reportsDone = false
  ends : ∃ v, VerdictOn g start (applications (before ++ e :: after))
    (underWay? before e.moment) v ∧ ending = if v = .goOn then .stopped else v.ending
  last : ∃ meanwhile last, after = meanwhile ++ last ∧ last.map Entry.moment = ending.moments

/-- How a run is recorded: its walk, and how it ended. -/
theorem exists_log_run (g : Game σ φ) (h : Host α φ) (p : Program) (initial : σ) (host : α) :
    ∃ last, (run g h p initial host).log =
        (walk g h p.ops (launch g h initial host)).1.history ++ last ∧
      last.map Entry.moment = (run g h p initial host).ending.moments ∧ Quiet last := by
  obtain ⟨last, hlog, hlast, hphase⟩ := World.exists_history_tellAll h
    (walk g h p.ops (launch g h initial host)).ending.moments
    ((walk g h p.ops (launch g h initial host)).1.enter .finished)
  rw [run_eq]
  exact ⟨last, hlog, hlast, quiet_of_ne_walking fun x hx => by simp [hphase x hx]⟩

/-- How a run ends that was stopped. -/
theorem LeftBy.ending_eq {v : Verdict} {r : Stretch σ φ α} (hv : LeftBy v r.2)
    (hstop : r.1.stopped = true) : r.ending = if v = .goOn then .stopped else v.ending := by
  rw [Stretch.ending]
  by_cases hgo : v = .goOn
  · rw [LeftBy, if_pos hgo] at hv
    rw [if_pos hgo]
    rcases hv with hv | hv <;> rw [hv]
    · exact if_pos hstop
    · rfl
  · rw [LeftBy, if_neg hgo] at hv
    rw [if_neg hgo, hv]
    cases v with
    | goOn => exact absurd rfl hgo
    | _ => rfl

/-- The moments at the end of a run do not announce or apply anything, and they call the
program done only if it is. -/
theorem of_mem_moments {e : Ending} {m : Moment φ} (hm : m ∈ e.moments) :
    m.step? = none ∧ m.applying? = none ∧ (e ≠ .done → m.reportsDone = false) ∧
      (e = .stopped → m = .status .stopped) := by
  cases e <;> simp only [Ending.moments, List.mem_cons, List.not_mem_nil, or_false] at hm
  case done => rcases hm with rfl | rfl <;> simp [Moment.step?, Moment.applying?]
  all_goals subst hm; simp [Moment.step?, Moment.applying?, Moment.reportsDone]

/-- **A run heeds the first stop that counts.** -/
theorem heeded_run (g : Game σ φ) (h : Host α φ) (p : Program) (initial : σ) (host : α)
    {before : List (Entry φ)} {e : Entry φ} {after : List (Entry φ)}
    (hsplit : (run g h p initial host).log = before ++ e :: after) (hquiet : Quiet before)
    (he : e.effective = true) :
    Heeded g (g.reset initial).2 before e after (run g h p initial host).ending := by
  have hsettled := settled_walk h p.ops (settled_launch g h initial host)
  obtain ⟨last, hlog, hlast, hfinished⟩ := exists_log_run g h p initial host
  have hending : (run g h p initial host).ending =
      (walk g h p.ops (launch g h initial host)).ending := by rw [run_eq]; rfl
  set r := walk g h p.ops (launch g h initial host)
  -- the entry belongs to the walk, for no stop counts when the walk is over
  obtain ⟨later, rfl, hhist⟩ := hfinished.exists_of_eq_append he (hlog.symm.trans hsplit)
  obtain ⟨hstep, happ, hpause, v, hv, hleft⟩ :=
    hsettled.aftermath before e later hhist hquiet he
  have hstop : r.1.stopped = true := by
    rw [hsettled.remembers, List.any_eq_true]
    exact ⟨e, hhist ▸ List.mem_append_right before (List.mem_cons_self ..), he⟩
  have hends : (run g h p initial host).ending = if v = .goOn then .stopped else v.ending :=
    hending.trans (hleft.ending_eq hstop)
  have hne : (run g h p initial host).ending ≠ .done := by
    rw [hends]
    cases v <;> simp [Verdict.ending]
  have hmoment : ∀ x ∈ last, x.moment ∈ (run g h p initial host).ending.moments := fun x hx =>
    hlast ▸ List.mem_map_of_mem hx
  have happs : applications (later ++ last) = applications later := by
    rw [applications_append,
      applications_eq_nil fun x hx => (of_mem_moments (hmoment x hx)).2.1, List.append_nil]
  refine ⟨?_, ?_, ?_, ?_, ⟨v, ?_, hends⟩, later, last, rfl, hlast⟩
  · intro x hx
    rcases List.mem_append.1 hx with hx | hx
    · exact hstep x hx
    · exact (of_mem_moments (hmoment x hx)).1
  · rw [happs]
    exact happ
  · intro d hd x hx
    rcases List.mem_append.1 hx with hx | hx
    · exact Or.inl (hpause d hd x hx)
    · rw [hd] at hv
      change v = .goOn at hv
      rw [if_pos hv] at hends
      exact Or.inr ((of_mem_moments (hmoment x hx)).2.2.2 hends)
  · intro x hx
    rw [← List.cons_append, ← List.append_assoc, ← hhist, List.mem_append] at hx
    rcases hx with hx | hx
    · exact hsettled.not_done x hx
    · exact (of_mem_moments (hmoment x hx)).2.2.1 hne
  · rw [← List.cons_append, ← List.append_assoc, applications_append,
      applications_eq_nil fun x hx => (of_mem_moments (hmoment x hx)).2.1, List.append_nil]
    exact hv

/-- The state at the end of a run is that of applying, in order, all instructions whose
application is on record, stopped or not. -/
theorem state_run_eq_after (g : Game σ φ) (h : Host α φ) (p : Program) (initial : σ) (host : α) :
    (run g h p initial host).state =
      g.after (applications (run g h p initial host).log) (g.reset initial).2 := by
  have hsettled := settled_walk h p.ops (settled_launch g h initial host)
  obtain ⟨last, hlog, hlast, -⟩ := exists_log_run g h p initial host
  have hnone : applications last = [] := applications_eq_nil fun x hx =>
    (of_mem_moments (hlast ▸ List.mem_map_of_mem hx)).2.1
  rw [state_run, hlog, applications_append, hnone, List.append_nil]
  exact hsettled.state

/-! ## What stopping does to a run -/

end Run

end BlockRobot
