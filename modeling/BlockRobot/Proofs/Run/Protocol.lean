import BlockRobot.Proofs.Run.Verdicts

/-!
# What a host can rely on

A host learns of a run by notifications, of the status line, of steps and of the end, and it
can ask whether the run is running (`Phase.running?`).  Whatever the program, the game and
the host itself do, the record of a run falls into three parts (`run_keeps_protocol`).

* The *opening* comes before there is a run to ask.  The only notification in it is that the
  run goes.
* The *walk* is recorded while the run is running.  Its notifications are steps, and an
  instruction is applied right behind its own step (`Announced`).
* The *closing* is recorded when the run is no longer running.  It is the group of moments
  for the way in which the run ended (`Ending.moments`), and nothing if the game broke down.

## The invariant

`UnderWay` describes a world in which the walk has begun.  Telling the host of a moment of
the walk keeps it (`UnderWay.tell`), and this is all a walk ever does.  What has to be seen
to is that nothing stands between a step and the application behind it.
-/

namespace BlockRobot

/-- Whether the host is notified at a moment: of the status line, of a step, or of the end. -/
def Moment.isNotice {φ : Type} : Moment φ → Bool
  | status _ | step _ | done | interrupted _ => true
  | _ => false

/-- Every application on record stands right behind the step of the same instruction. -/
def Announced {φ : Type} (log : List (Entry φ)) : Prop :=
  ∀ before e after op, log = before ++ e :: after → e.moment = .applying op →
    ∃ earlier d, before = earlier ++ [d] ∧ d.moment = .step op

/-- One entry more, which is behind its step if it is an application. -/
theorem Announced.concat {φ : Type} {log : List (Entry φ)} {x : Entry φ} (hlog : Announced log)
    (hx : ∀ op, x.moment = .applying op → ∃ earlier d, log = earlier ++ [d] ∧ d.moment = .step op) :
    Announced (log ++ [x]) := by
  intro before e after op hsplit he
  rcases eq_of_concat_eq hsplit with ⟨rfl, rfl, -⟩ | ⟨later, -, hlog'⟩
  · exact hx op he
  · exact hlog before e later op hlog' he

/-- Entries more, of which none is an application. -/
theorem Announced.append {φ : Type} {log last : List (Entry φ)} (hlog : Announced log)
    (hlast : ∀ x ∈ last, x.moment.applying? = none) : Announced (log ++ last) := by
  induction last generalizing log with
  | nil => exact (List.append_nil log).symm ▸ hlog
  | cons x last ih =>
    rw [List.append_cons]
    refine ih (hlog.concat fun op hop => ?_) fun y hy => hlast y (List.mem_cons_of_mem x hy)
    have hnone := hlast x (List.mem_cons_self ..)
    rw [hop] at hnone
    cases hnone

namespace Run

variable {σ φ α : Type}

/-! ## The invariant -/

/-- What is recorded in the walk: it begins when the run is handed over, the run is running
throughout, and of what happens the host is notified of steps only. -/
structure Walked (walked : List (Entry φ)) : Prop where
  head : walked.head?.map Entry.moment = some .launched
  running : ∀ e ∈ walked, e.phase.running? = some true
  notice : ∀ e ∈ walked, e.moment.isNotice = true → ∃ op, e.moment = .step op

/-- A world in which the walk has begun behind an opening. -/
structure UnderWay (opening : List (Entry φ)) (w : World σ φ α) : Prop where
  phase : w.phase = .walking
  announced : Announced w.history
  walked : ∃ walked, w.history = opening ++ walked ∧ Walked walked

variable {opening : List (Entry φ)}

/-- Telling of a moment of the walk, behind its step if it is an application. -/
theorem UnderWay.tell {w : World σ φ α} (hw : UnderWay opening w) (h : Host α φ) {m : Moment φ}
    (hm : m.isNotice = true → ∃ op, m = .step op)
    (happly : ∀ op, m = .applying op →
      ∃ earlier d, w.history = earlier ++ [d] ∧ d.moment = .step op) :
    UnderWay opening (w.tell h m) := by
  obtain ⟨walked, hhist, hhead, hrunning, hnotice⟩ := hw.walked
  refine ⟨hw.phase, ?_, walked ++ [w.entry h m], ?_, ?_, ?_, ?_⟩
  · rw [World.history_tell]
    exact hw.announced.concat happly
  · rw [World.history_tell, hhist, List.append_assoc]
  · cases walked with
    | nil => cases hhead
    | cons x walked => exact hhead
  · intro e he
    rcases List.mem_append.1 he with he | he
    · exact hrunning e he
    · rw [List.mem_singleton.1 he, World.entry_phase, hw.phase]
      rfl
  · intro e he
    rcases List.mem_append.1 he with he | he
    · exact hnotice e he
    · rw [List.mem_singleton.1 he]
      exact hm

/-- Telling of a moment that is neither a notification nor an application. -/
theorem UnderWay.tell_silent {w : World σ φ α} (hw : UnderWay opening w) (h : Host α φ)
    {m : Moment φ} (hm : m.isNotice = false) (happly : m.applying? = none) :
    UnderWay opening (w.tell h m) := by
  refine hw.tell h (fun hnotice => ?_) fun op hop => ?_
  · rw [hm] at hnotice
    cases hnotice
  · rw [hop] at happly
    cases happly

theorem UnderWay.tell_step {w : World σ φ α} (hw : UnderWay opening w) (h : Host α φ) (op : Op) :
    UnderWay opening (w.tell h (.step op)) :=
  hw.tell h (fun _ => ⟨op, rfl⟩) fun _ hop => by cases hop

theorem UnderWay.tellActs {w : World σ φ α} (hw : UnderWay opening w) (h : Host α φ)
    (acts : List (Act φ)) : UnderWay opening (w.tellAll h (acts.map Act.moment)) := by
  induction acts generalizing w with
  | nil => exact hw
  | cons act acts ih =>
    rw [List.map_cons, World.tellAll_cons]
    refine ih (hw.tell_silent h ?_ (Moment.isAct_moment act).applying?_eq_none)
    cases act <;> rfl

/-- Announcing and applying an instruction. -/
theorem UnderWay.applied {w : World σ φ α} (hw : UnderWay opening w) (g : Game σ φ)
    (h : Host α φ) (op : Op) : UnderWay opening (applied g h op (w.tell h (.step op))) := by
  have happlying : UnderWay opening ((w.tell h (.step op)).tell h (.applying op)) := by
    refine (hw.tell_step h op).tell h nofun fun x hx => ?_
    obtain rfl := Moment.applying.inj hx
    exact ⟨w.history, w.entry h (.step op), World.history_tell h _ w, rfl⟩
  have hacts := happlying.tellActs h (g.apply op w.state).acts
  exact ⟨hacts.phase, hacts.announced, hacts.walked⟩

theorem UnderWay.perform {w : World σ φ α} (hw : UnderWay opening w) (g : Game σ φ)
    (h : Host α φ) (op : Op) : UnderWay opening (perform g h op (w.tell h (.step op))).1 := by
  rw [perform_eq]
  refine Stretch.andThen_keeps (C := fun r => UnderWay opening r.1) (hw.applied g h op)
    fun v hv => ?_
  rcases pause_eq h op v with hp | ⟨-, d, hp⟩
  · rw [hp]
    exact hv
  · rw [hp]
    exact hv.tell_silent h rfl rfl

/-- **Every walk keeps the protocol.** -/
theorem underWay_walk (g : Game σ φ) (h : Host α φ) (ops : List Op) {w : World σ φ α}
    (hw : UnderWay opening w) : UnderWay opening (walk g h ops w).1 :=
  walk_induction (C := fun r => UnderWay opening r.1) (fun _ hv _ => hv)
    (fun _ _ _ _ hv _ => hv.tell_step h _) (fun _ hv => hv.tell_silent h rfl rfl)
    (fun op _ _ hv _ => hv.perform g h op) ops hw

/-- What is recorded before there is a run to ask: frames of the reset, and that the run
goes. -/
structure Opening (opening : List (Entry φ)) : Prop where
  unlaunched : ∀ e ∈ opening, e.phase.running? = none
  notice : (opening.map Entry.moment).filter Moment.isNotice = [.status .running]
  silent : ∀ e ∈ opening, e.moment.applying? = none

/-- The walk begins behind an opening. -/
theorem underWay_launch (g : Game σ φ) (h : Host α φ) (initial : σ) (host : α) :
    ∃ opening, Opening opening ∧ UnderWay opening (launch g h initial host) := by
  obtain ⟨opening, launched, hhist, hmoments, hphase, hlaunched, hwalking⟩ :=
    exists_history_launch g h initial host
  have hsilent := applying?_eq_none_of_opening hmoments
  have hnil : Announced ([] : List (Entry φ)) := fun before e after op hsplit => by simp at hsplit
  refine ⟨opening, ⟨fun e he => by rw [hphase e he]; rfl, ?_, hsilent⟩, ?_, ?_, [launched], hhist,
    ?_, ?_, ?_⟩
  · have hframes : ((g.reset initial).1.map Moment.shown).filter Moment.isNotice = [] := by
      refine List.filter_eq_nil_iff.2 fun m hm => ?_
      obtain ⟨frame, -, rfl⟩ := List.mem_map.1 hm
      exact Bool.false_ne_true
    rw [hmoments, List.filter_append, hframes]
    rfl
  · rw [launch_eq]
    rfl
  · rw [hhist, ← List.nil_append opening]
    refine (hnil.append hsilent).append fun x hx => ?_
    rw [List.mem_singleton.1 hx, hlaunched]
    rfl
  · rw [List.head?_cons, Option.map_some, hlaunched]
  · intro e he
    rw [List.mem_singleton.1 he, hwalking]
    rfl
  · intro e he hnotice
    rw [List.mem_singleton.1 he, hlaunched] at hnotice
    cases hnotice

/-! ## Whole runs -/

/-- A run ends as crashed exactly if the game broke down over an instruction. -/
theorem ending_run_eq_crashed_iff (g : Game σ φ) (h : Host α φ) (p : Program) (initial : σ)
    (host : α) :
    (run g h p initial host).ending = .crashed ↔
      ∃ earlier op later, applications (run g h p initial host).log = earlier ++ op :: later ∧
        (g.apply op (g.after earlier (g.reset initial).2)).verdict = .crashed := by
  constructor
  · intro hcrashed
    rcases verdicts_run g h p initial host with ⟨-, hend⟩ | ⟨earlier, op, happs, -, -, hend⟩
    · rw [hcrashed] at hend
      rcases hend with hend | hend <;> cases hend
    · refine ⟨earlier, op, [], happs, ?_⟩
      rw [hcrashed] at hend
      cases hv : (g.apply op (g.after earlier (g.reset initial).2)).verdict with
      | crashed => rfl
      | _ => rw [hv] at hend; cases hend
  · rintro ⟨earlier, op, later, hsplit, hv⟩
    obtain ⟨-, hend⟩ := ending_of_verdict_ne hsplit (by rw [hv]; exact nofun)
    rw [hend, hv]
    rfl

/-- **Every run keeps the protocol**, whatever program it runs, whatever the game does, and
whenever the host asks for a stop.

* The record is an opening, a walk and a closing.  There is no run to ask in the opening, it
  is running in the walk, and it is not in the closing.
* The first notification is that the run goes; it is the only one in the opening.
* The walk begins when the run is handed over, and of it the host is notified of steps only.
* The closing is the group of moments for the way in which the run ended, and nothing else.
* Every instruction is applied right behind its step.
* The run ends as crashed exactly if the game broke down; and it is not running when it is
  over, however it ended. -/
theorem run_keeps_protocol {σ φ α : Type} (g : Game σ φ) (h : Host α φ) (p : Program)
    (initial : σ) (host : α) :
    (∃ opening walked closing, (run g h p initial host).log = opening ++ walked ++ closing ∧
      (∀ e ∈ opening, e.phase.running? = none) ∧
      (opening.map Entry.moment).filter Moment.isNotice = [.status .running] ∧
      Walked walked ∧
      (∀ e ∈ closing, e.phase.running? = some false) ∧
      closing.map Entry.moment = (run g h p initial host).ending.moments) ∧
    Announced (run g h p initial host).log ∧
    ((run g h p initial host).ending = .crashed ↔
      ∃ earlier op later, applications (run g h p initial host).log = earlier ++ op :: later ∧
        (g.apply op (g.after earlier (g.reset initial).2)).verdict = .crashed) ∧
    (finish h (walk g h p.ops (launch g h initial host))).1.phase.running? = some false := by
  obtain ⟨opening, hopening, hlaunch⟩ := underWay_launch g h initial host
  have hwalk := underWay_walk g h p.ops hlaunch
  obtain ⟨walked, hhist, hwalked⟩ := hwalk.walked
  obtain ⟨closing, hlog, hclosing, hphase⟩ := World.exists_history_tellAll h
    (walk g h p.ops (launch g h initial host)).ending.moments
    ((walk g h p.ops (launch g h initial host)).1.enter .finished)
  have hrecord : (run g h p initial host).log =
      (walk g h p.ops (launch g h initial host)).1.history ++ closing := by
    rw [run_eq]
    exact hlog
  have hending : (run g h p initial host).ending =
      (walk g h p.ops (launch g h initial host)).ending := by rw [run_eq]; rfl
  refine ⟨⟨opening, walked, closing, ?_, hopening.unlaunched, hopening.notice, hwalked, ?_, ?_⟩,
    ?_, ending_run_eq_crashed_iff g h p initial host, ?_⟩
  · rw [hrecord, hhist]
  · intro e he
    rw [hphase e he]
    rfl
  · rw [hclosing, hending]
  · rw [hrecord]
    refine hwalk.announced.append fun x hx => ?_
    exact (of_mem_moments (hclosing ▸ List.mem_map_of_mem hx)).2.1
  · rw [finish_eq, Stretch.conclude, World.tellAll_phase]
    rfl

end Run

end BlockRobot
