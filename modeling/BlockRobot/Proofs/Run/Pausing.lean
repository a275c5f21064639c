import BlockRobot.Run.Timetable

/-!
# A pause that is cut short

A pause ends at once when the run is stopped.  When that is, only a host with a clock can
say, and the timetable is one.  Asleep until a time, it does what is due before; if a stop
was among it, its clock stands at the time of the first one, and all it has done since was
due at that same time (`sleep_endsAtFirstStop`).
-/

namespace BlockRobot

/-- Whether a line says that a stop was asked for. -/
def Line.isStop {φ : Type} : Line φ → Bool
  | stop _ => true
  | _ => false

/-- The line a command leaves in the log. -/
def Command.line {φ : Type} (phase : Phase) : Command → Line φ
  | stop => .stop phase.running?
  | query => .query phase.running?

namespace Timetable

variable {φ : Type}

theorem perform_eq_note (t : Timetable φ) (phase : Phase) (command : Command) :
    t.perform phase command = t.note (command.line phase) := by
  cases command <;> rfl

/-- When a stop has ended a sleep, only what is due at that very time is still done. -/
theorem sleep_of_woken (phase : Phase) (due : List (Nat × Command)) (t : Timetable φ) :
    ∃ later, (sleep phase true due t.now true t).1.log = later ++ t.log ∧
      (∀ line ∈ later, line.1 = t.now) ∧ (sleep phase true due t.now true t).1.now = t.now ∧
      (sleep phase true due t.now true t).2 = true := by
  induction due generalizing t with
  | nil => exact ⟨[], rfl, by simp, Nat.max_self _, rfl⟩
  | cons entry due ih =>
    obtain ⟨at_, command⟩ := entry
    rw [sleep]
    split
    · rename_i htime
      have hnow : max t.now at_ = t.now := Nat.le_antisymm htime (Nat.le_max_left ..)
      obtain ⟨later, hlog, htimes, hend⟩ := ih (t.note (command.line phase))
      have happend : later ++ (t.note (command.line phase)).log =
          (later ++ [(t.now, command.line phase)]) ++ t.log := by
        rw [List.append_assoc]
        rfl
      have htimes' : ∀ line ∈ later ++ [(t.now, command.line phase)], line.1 = t.now := by
        intro line hline
        rcases List.mem_append.1 hline with hline | hline
        · exact htimes line hline
        · rw [List.mem_singleton.1 hline]
      rw [hnow, perform_eq_note]
      cases command <;> exact ⟨_, hlog.trans happend, htimes', hend⟩
    · exact ⟨[], rfl, by simp, Nat.max_self _, rfl⟩

/-- What a sleep until a time comes to if a stop ends it: without a stop it lasts until that
time; with one, the clock stands where the first was asked for, and nothing was done later. -/
def EndsAtFirstStop (phase : Phase) (until_ : Nat) (t : Timetable φ)
    (r : Timetable φ × Bool) : Prop :=
  ∃ between, (∀ line ∈ between, line.2.isStop = false) ∧
    ((r.2 = false ∧ r.1.now = max t.now until_ ∧ r.1.log = between ++ t.log) ∨
      (r.2 = true ∧ r.1.now ≤ max t.now until_ ∧
        ∃ later, (∀ line ∈ later, line.1 = r.1.now) ∧
          r.1.log = later ++ (r.1.now, .stop phase.running?) :: (between ++ t.log)))

/-- **A sleep from which a stop can wake ends at the first stop.** -/
theorem sleep_endsAtFirstStop (phase : Phase) (due : List (Nat × Command)) (until_ : Nat)
    (t : Timetable φ) : EndsAtFirstStop phase until_ t (sleep phase true due until_ false t) := by
  induction due generalizing t with
  | nil => exact ⟨[], by simp, Or.inl ⟨rfl, rfl, rfl⟩⟩
  | cons entry due ih =>
    obtain ⟨at_, command⟩ := entry
    rw [sleep]
    split
    · rename_i htime
      have hmax : max t.now until_ = until_ :=
        Nat.max_eq_right (Nat.le_trans (Nat.le_max_left ..) htime)
      cases command with
      | stop =>
        obtain ⟨later, hlog, htimes, hnow, hstop⟩ := sleep_of_woken phase due
          (({ t with now := max t.now at_ } : Timetable φ).note (.stop phase.running?))
        refine ⟨[], by simp, Or.inr ⟨hstop, ?_, later, fun line hline => ?_, hlog.trans ?_⟩⟩
        · rw [hmax]
          exact Nat.le_trans (Nat.le_of_eq hnow) htime
        · exact (htimes line hline).trans hnow.symm
        · rw [List.nil_append]
          exact congrArg (fun now => later ++ (now, .stop phase.running?) :: t.log) hnow.symm
      | query =>
        obtain ⟨between, hbetween, hr⟩ :=
          ih (({ t with now := max t.now at_ } : Timetable φ).note (.query phase.running?))
        have happend : between ++ (max t.now at_, .query phase.running?) :: t.log =
            between ++ [(max t.now at_, .query phase.running?)] ++ t.log := by simp
        have hmax' : max (max t.now at_) until_ = max t.now until_ :=
          (Nat.max_eq_right htime).trans hmax.symm
        refine ⟨between ++ [(max t.now at_, .query phase.running?)], fun line hline => ?_, ?_⟩
        · rcases List.mem_append.1 hline with hline | hline
          · exact hbetween line hline
          · rw [List.mem_singleton.1 hline]
            rfl
        · rcases hr with ⟨hstop, hnow, hlog⟩ | ⟨hstop, hnow, later, htimes, hlog⟩
          · exact Or.inl ⟨hstop, hnow.trans hmax', hlog.trans happend⟩
          · refine Or.inr ⟨hstop, hmax' ▸ hnow, later, htimes, ?_⟩
            rw [← happend]
            exact hlog
    · exact ⟨[], by simp, Or.inl ⟨rfl, rfl, rfl⟩⟩

end Timetable

end BlockRobot
