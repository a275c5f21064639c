import BlockRobot.Proofs.Run.Verdicts
import BlockRobot.Rehearsal

/-!
# What may still begin after a stop

A stop is heeded where the walk looks for one, and the walk does not look between the step of an
instruction and its application.  Whoever stops a run from within the notification of a step comes
too late for that instruction: the walk is committed to it (`Moment.committed?`), and it is applied
although the stop has been asked for (`halted_in_step_still_applies`).

This is the only way in which anything begins after a stop, and it is so for every stop that counts,
not only for the first (`applications_after_stop`).  Two facts about the record meet here.

* After the first stop nothing is announced, and nothing but the instruction announced there is
  applied (`heeded_run`).
* A step of an instruction that is no loop has its application right behind it (`CarriedOut`).  In
  the middle of an instruction this does not hold, so it is an invariant of what is recorded between
  the places where the walk looks for stops (`carriedOut_walk`).

Together they leave no room behind a later stop: what is applied after the first one is applied at
once.
-/

namespace BlockRobot

variable {φ : Type}

/-- The instruction that is applied in any case from a moment on: one that is being announced and is
no loop. -/
def Moment.committed? : Moment φ → Option Op
  | step op => if op.isLoop then none else some op
  | _ => none

namespace Moment

theorem committed?_step {op : Op} (hop : op.isLoop = false) :
    (step op : Moment φ).committed? = some op := by
  rw [committed?, hop]
  rfl

theorem committed?_eq_none_iff {m : Moment φ} :
    m.committed? = none ↔ ∀ op, m = step op → op.isLoop = true := by
  cases m with
  | step op => simp [committed?]
  | _ => exact iff_of_true rfl nofun

theorem committed?_eq_none_of_step? {m : Moment φ} (hm : m.step? = none) : m.committed? = none :=
  committed?_eq_none_iff.2 fun op hop => by
    rw [hop] at hm
    cases hm

theorem IsPassing.committed?_eq_none {m : Moment φ} (hm : m.IsPassing) : m.committed? = none :=
  committed?_eq_none_iff.2 fun _ hop => by
    rw [hop] at hm
    exact hm

/-- The walk is committed to an instruction only in its step. -/
theorem eq_step_of_committed? {m : Moment φ} {op : Op} (hm : m.committed? = some op) :
    m = step op := by
  cases m with
  | step op' =>
    rw [committed?] at hm
    split at hm
    · cases hm
    · rw [Option.some.inj hm]
  | _ => cases hm

end Moment

/-! ## Steps and their applications -/

/-- Every instruction on record to which the walk was committed is applied right behind its step. -/
def CarriedOut (log : List (Entry φ)) : Prop :=
  ∀ before e after op, log = before ++ e :: after → e.moment.committed? = some op →
    ∃ x later, after = x :: later ∧ x.moment = .applying op

theorem carriedOut_nil : CarriedOut ([] : List (Entry φ)) := by
  intro before e after op hsplit
  simp at hsplit

namespace CarriedOut

variable {log : List (Entry φ)}

/-- An entry more, in which the walk is not committed. -/
theorem concat (hlog : CarriedOut log) {x : Entry φ} (hx : x.moment.committed? = none) :
    CarriedOut (log ++ [x]) := by
  intro before e after op hsplit he
  rcases eq_of_concat_eq hsplit with ⟨-, rfl, -⟩ | ⟨later, rfl, hlog'⟩
  · rw [hx] at he
    cases he
  · obtain ⟨y, rest, rfl, hy⟩ := hlog before e later op hlog' he
    exact ⟨y, rest ++ [x], rfl, hy⟩

/-- Entries more, in none of which the walk is committed. -/
theorem append (hlog : CarriedOut log) {last : List (Entry φ)}
    (hlast : ∀ x ∈ last, x.moment.committed? = none) : CarriedOut (log ++ last) := by
  induction last generalizing log with
  | nil => exact (List.append_nil log).symm ▸ hlog
  | cons x last ih =>
    rw [List.append_cons]
    exact ih (hlog.concat (hlast x (List.mem_cons_self ..))) fun y hy =>
      hlast y (List.mem_cons_of_mem x hy)

/-- A step more, and the application behind it. -/
theorem concat_step (hlog : CarriedOut log) {step applying : Entry φ} {op : Op}
    (hstep : step.moment = .step op) (happlying : applying.moment = .applying op) :
    CarriedOut (log ++ [step] ++ [applying]) := by
  intro before e after op' hsplit he
  rcases eq_of_concat_eq hsplit with ⟨-, rfl, -⟩ | ⟨later, rfl, hbegun⟩
  · rw [happlying] at he
    cases he
  · rcases eq_of_concat_eq hbegun with ⟨-, rfl, rfl⟩ | ⟨rest, rfl, hlog'⟩
    · have hop : op = op' := Moment.step.inj (hstep.symm.trans (Moment.eq_step_of_committed? he))
      exact ⟨applying, [], rfl, hop ▸ happlying⟩
    · obtain ⟨x, others, rfl, hx⟩ := hlog before e rest op' hlog' he
      exact ⟨x, others ++ [step] ++ [applying], rfl, hx⟩

end CarriedOut

theorem applications_eq_nil_of_sublist {as bs : List (Entry φ)} (h : as.Sublist bs)
    (hbs : applications bs = []) : applications as = [] :=
  List.eq_nil_of_sublist_nil (hbs ▸ h.filterMap _)

namespace Run

variable {σ α : Type}

/-! ## Walks carry out what they announce -/

/-- Announcing and performing an instruction. -/
theorem carriedOut_perform (g : Game σ φ) (h : Host α φ) (op : Op) {w : World σ φ α}
    (hw : CarriedOut w.history) : CarriedOut (perform g h op (w.tell h (.step op))).1.history := by
  rw [perform_eq]
  refine Stretch.andThen_keeps (C := fun r => CarriedOut r.1.history) ?_ fun v hv => ?_
  · obtain ⟨step, applying, acts, hhist, hstep, happlying, hacts⟩ :=
      exists_history_applied g h op w
    have hsilent : ∀ x ∈ acts, x.moment.committed? = none := fun x hx =>
      Moment.committed?_eq_none_of_step? (hacts x hx).step?_eq_none
    have hbegun := (hw.concat_step hstep happlying).append hsilent
    rw [List.append_assoc, List.append_assoc] at hbegun
    exact hhist ▸ hbegun
  · rcases pause_eq h op v with hp | ⟨-, d, hp⟩
    · rw [hp]
      exact hv
    · rw [hp, World.history_tell]
      exact hv.concat rfl

/-- **Every walk carries out what it announces**, stopped or not. -/
theorem carriedOut_walk (g : Game σ φ) (h : Host α φ) (ops : List Op) {w : World σ φ α}
    (hw : CarriedOut w.history) : CarriedOut (walk g h ops w).1.history := by
  have htell {v : World σ φ α} {m : Moment φ} (hm : m.IsPassing) (hv : CarriedOut v.history) :
      CarriedOut (v.tell h m).history := by
    rw [World.history_tell]
    exact hv.concat hm.committed?_eq_none
  exact walk_induction (C := fun r => CarriedOut r.1.history) (fun _ hv _ => hv)
    (fun _ _ _ _ hv _ => htell rfl hv) (fun _ hv => htell trivial hv)
    (fun op _ _ hv _ => carriedOut_perform g h op hv) ops hw

theorem carriedOut_launch (g : Game σ φ) (h : Host α φ) (initial : σ) (host : α) :
    CarriedOut (launch g h initial host).history := by
  obtain ⟨opening, launched, hhist, hmoments, -, hlaunched, -⟩ :=
    exists_history_launch g h initial host
  have hopening : CarriedOut ([] ++ opening) := carriedOut_nil.append fun x hx => by
    rcases moment_of_opening hmoments hx with hm | ⟨frame, hm⟩ <;> rw [hm] <;> rfl
  rw [hhist]
  refine hopening.concat ?_
  rw [hlaunched]
  rfl

/-- **Every run carries out what it announces.** -/
theorem carriedOut_run (g : Game σ φ) (h : Host α φ) (p : Program) (initial : σ) (host : α) :
    CarriedOut (run g h p initial host).log := by
  obtain ⟨last, hlog, hlast, -⟩ := exists_log_run g h p initial host
  rw [hlog]
  refine (carriedOut_walk g h p.ops (carriedOut_launch g h initial host)).append fun x hx => ?_
  exact Moment.committed?_eq_none_of_step? (of_mem_moments (hlast ▸ List.mem_map_of_mem hx)).1

/-! ## After a stop -/

section Stops

variable {g : Game σ φ} {h : Host α φ} {p : Program} {initial : σ} {host : α}
  {before : List (Entry φ)} {e : Entry φ} {after : List (Entry φ)}

/-- After the first stop that counts, what is applied is the instruction to which the walk was
committed there. -/
theorem applications_after_first_stop
    (hsplit : (run g h p initial host).log = before ++ e :: after) (hquiet : Quiet before)
    (he : e.effective = true) : applications after = e.moment.committed?.toList := by
  have happs := (heeded_run g h p initial host hsplit hquiet he).application
  cases hcommitted : e.moment.committed? with
  | none =>
    rcases happs with hnil | ⟨op, hstep, hop, -⟩
    · exact hnil
    · rw [hstep, Moment.committed?_step hop] at hcommitted
      cases hcommitted
  | some op =>
    rcases happs with hnil | ⟨op', hstep, -, happs⟩
    · obtain ⟨x, later, rfl, hx⟩ :=
        carriedOut_run g h p initial host before e after op hsplit hcommitted
      rw [applications_cons_of_some (by rw [hx]; rfl)] at hnil
      cases hnil
    · obtain rfl : op = op' :=
        Moment.step.inj ((Moment.eq_step_of_committed? hcommitted).symm.trans hstep)
      exact happs

/-- If anything is applied after the first stop that counts, it is so at once. -/
theorem applications_tail_after_first_stop
    (hsplit : (run g h p initial host).log = before ++ e :: after) (hquiet : Quiet before)
    (he : e.effective = true) : applications after.tail = [] := by
  have happs := applications_after_first_stop hsplit hquiet he
  cases hcommitted : e.moment.committed? with
  | none =>
    rw [hcommitted] at happs
    exact applications_eq_nil_of_sublist (List.tail_sublist after) happs
  | some op =>
    obtain ⟨x, later, rfl, hx⟩ :=
      carriedOut_run g h p initial host before e after op hsplit hcommitted
    rw [hcommitted, applications_cons_of_some (by rw [hx]; rfl)] at happs
    exact (List.cons.inj happs).2

end Stops

/-- **After a stop nothing is applied any more but the instruction in whose step the stop was asked
for**, and that one is, unless it is a loop.  This holds of every stop that counts, wherever in the
run it was asked for and however often before.  So a stop keeps everything from being applied exactly
if it was not asked for in the step of an instruction that is no loop. -/
theorem applications_after_stop {σ φ α : Type} (g : Game σ φ) (h : Host α φ) (p : Program)
    (initial : σ) (host : α) {before : List (Entry φ)} {e : Entry φ} {after : List (Entry φ)}
    (hsplit : (run g h p initial host).log = before ++ e :: after) (he : e.effective = true) :
    applications after = e.moment.committed?.toList ∧
      (applications after = [] ↔ ∀ op, e.moment = .step op → op.isLoop = true) := by
  have happs : applications after = e.moment.committed?.toList := by
    rcases quiet_or_exists_first before with hquiet | ⟨earlier, first, mid, rfl, hquiet, hfirst⟩
    · exact applications_after_first_stop hsplit hquiet he
    · -- behind an earlier stop nothing is announced, and only the very next entry applies anything
      have hsplit' : (run g h p initial host).log = earlier ++ first :: (mid ++ e :: after) := by
        rw [hsplit, List.append_assoc, List.cons_append]
      have hstep : e.moment.step? = none :=
        (heeded_run g h p initial host hsplit' hquiet hfirst).no_step e
          (List.mem_append_right mid (List.mem_cons_self ..))
      have hlater : after.Sublist (mid ++ e :: after).tail := by
        cases mid with
        | nil => exact List.Sublist.refl after
        | cons x mid => exact (List.sublist_cons_self e after).trans (List.sublist_append_right mid _)
      rw [Moment.committed?_eq_none_of_step? hstep]
      exact applications_eq_nil_of_sublist hlater
        (applications_tail_after_first_stop hsplit' hquiet hfirst)
  rw [happs, Option.toList_eq_nil_iff, Moment.committed?_eq_none_iff]
  exact ⟨rfl, Iff.rfl⟩

/-- A rehearsal of a program in front of a clock that stops it at some events. -/
def halted (p : Program) (triggers : List Trigger) :
    Report (List String) Empty (Timetable Empty) :=
  run (Rehearsal.game {}) (Timetable.host Empty) p Rehearsal.stale
    { watchesGame := true, triggers := triggers }

/-- A program with an instruction behind the move. -/
def moveAndTurn : Program := ⟨[.start "s", .move 1 "m", .turn .left "t"]⟩

/-- A stop in the step of an instruction, and another when this is applied nevertheless. -/
def twice : List Trigger := [⟨"step", some "m", 1⟩, ⟨"apply", some "m", 1⟩]

theorem halted_twice_applies_one :
    (∃ before e after, (halted moveAndTurn twice).log = before ++ e :: after ∧
      e.effective = true ∧ e.moment = .step (.move 1 "m") ∧
      applications after = [.move 1 "m"]) ∧
    ∃ before e after, (halted moveAndTurn twice).log = before ++ e :: after ∧
      e.effective = true ∧ e.moment = .applying (.move 1 "m") ∧ applications after = [] := by
  have hstep : (halted moveAndTurn twice).log = (halted moveAndTurn twice).log.take 4 ++
      ⟨.walking, .step (.move 1 "m"), true⟩ :: (halted moveAndTurn twice).log.drop 5 := by rfl
  have happly : (halted moveAndTurn twice).log = (halted moveAndTurn twice).log.take 5 ++
      ⟨.walking, .applying (.move 1 "m"), true⟩ :: (halted moveAndTurn twice).log.drop 6 := by rfl
  obtain ⟨hone, -⟩ := applications_after_stop _ _ _ _ _ hstep rfl
  obtain ⟨hnone, -⟩ := applications_after_stop _ _ _ _ _ happly rfl
  exact ⟨⟨_, _, _, hstep, rfl, rfl, hone⟩, _, _, _, happly, rfl, rfl, hnone⟩

/-- A program of one move. -/
def oneMove : Program := ⟨[.start "s", .move 1 "m"]⟩

/-- The step of the move. -/
def moveStep : List Trigger := [⟨"step", some "m", 1⟩]

/-- Something is applied after a stop that was asked for while the run was walking. -/
theorem halted_in_step_still_applies :
    ∃ before e after, (halted oneMove moveStep).log = before ++ e :: after ∧
      e.effective = true ∧ applications after ≠ [] :=
  ⟨(halted oneMove moveStep).log.take 4, ⟨.walking, .step (.move 1 "m"), true⟩,
    (halted oneMove moveStep).log.drop 5, rfl, rfl, nofun⟩

end Run

end BlockRobot
