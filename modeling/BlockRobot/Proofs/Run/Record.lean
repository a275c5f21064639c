import BlockRobot.Proofs.Run.Walk

/-!
# Reading the record of a run

The record of a run lists everything the host was told, and whether it asked for a stop.
This file gives names to what can be read off it.

* `Quiet` says that no stop that counts is on record; otherwise the record splits at the
  first of them (`quiet_or_exists_first`).
* `applications` are the instructions whose application has begun, and `announced?` is the
  instruction announced last.
* `underWay?` is the instruction that is under way at a moment: announced, no loop, and not
  done yet.
* Most moments are of two kinds.  `Moment.IsPassing` are those between instructions, at
  which nothing is under way, and `Moment.IsAct` those of the acts of a game, at which the
  instruction announced last is.
-/

namespace BlockRobot

/-! ## Moments -/

namespace Moment

variable {φ : Type}

/-- The instruction announced at a moment. -/
def step? : Moment φ → Option Op
  | step op => some op
  | _ => none

/-- The instruction whose application begins at a moment. -/
def applying? : Moment φ → Option Op
  | applying op => some op
  | _ => none

@[simp] theorem step?_step (op : Op) : (step op : Moment φ).step? = some op := rfl

/-- Whether a moment reports that the program is done. -/
def reportsDone : Moment φ → Bool
  | done => true
  | status .done => true
  | _ => false

/-- A moment at which nothing is announced to be applied, applied, or reported. -/
def IsPassing : Moment φ → Prop
  | launched | yielded | paused _ => True
  | step op => op.isLoop = true
  | _ => False

/-- A moment of an act of the game. -/
def IsAct : Moment φ → Prop
  | shown _ | slept _ => True
  | _ => False

theorem isAct_moment (a : Act φ) : a.moment.IsAct := by
  cases a <;> trivial

theorem IsAct.step?_eq_none {m : Moment φ} (hm : m.IsAct) : m.step? = none := by
  cases m <;> first | rfl | exact hm.elim

theorem IsAct.applying?_eq_none {m : Moment φ} (hm : m.IsAct) : m.applying? = none := by
  cases m <;> first | rfl | exact hm.elim

theorem IsAct.reportsDone_eq_false {m : Moment φ} (hm : m.IsAct) : m.reportsDone = false := by
  cases m <;> first | rfl | exact hm.elim

theorem IsPassing.applying?_eq_none {m : Moment φ} (hm : m.IsPassing) : m.applying? = none := by
  cases m <;> first | rfl | exact hm.elim

theorem IsPassing.reportsDone_eq_false {m : Moment φ} (hm : m.IsPassing) :
    m.reportsDone = false := by
  cases m <;> first | rfl | exact hm.elim

end Moment

/-! ## Records -/

section Records

variable {φ : Type}

/-- No stop that counts is on record. -/
def Quiet (log : List (Entry φ)) : Prop := ∀ e ∈ log, e.effective = false

/-- The instructions whose application has begun, in order. -/
def applications (log : List (Entry φ)) : List Op := log.filterMap fun e => e.moment.applying?

/-- The instruction announced last. -/
def announced? (log : List (Entry φ)) : Option Op :=
  (log.filterMap fun e => e.moment.step?).getLast?

/-- The instruction that is under way at a moment behind a record: it has been announced, it
is no loop, and it is not done. -/
def underWay? (log : List (Entry φ)) : Moment φ → Option Op
  | .step op => if op.isLoop then none else some op
  | .applying op => some op
  | .shown _ => announced? log
  | .slept _ => announced? log
  | _ => none

/-- At a moment of an act the instruction announced last is under way. -/
theorem Moment.IsAct.underWay?_eq {m : Moment φ} (hm : m.IsAct) (log : List (Entry φ)) :
    underWay? log m = announced? log := by
  cases m <;> first | rfl | exact hm.elim

/-- At a passing moment nothing is under way. -/
theorem Moment.IsPassing.underWay?_eq_none {m : Moment φ} (hm : m.IsPassing)
    (log : List (Entry φ)) : underWay? log m = none := by
  cases m with
  | step op => exact if_pos hm
  | launched | yielded | paused d => rfl
  | _ => exact hm.elim

@[simp] theorem applications_append (as bs : List (Entry φ)) :
    applications (as ++ bs) = applications as ++ applications bs := by
  simp [applications]

theorem quiet_of_ne_walking {log : List (Entry φ)} (hlog : ∀ e ∈ log, e.phase ≠ .walking) :
    Quiet log := fun e he => by
  rw [Entry.effective, decide_eq_false (hlog e he), Bool.and_false]

/-- A record is quiet, or it splits at the first stop that counts. -/
theorem quiet_or_exists_first (log : List (Entry φ)) :
    Quiet log ∨ ∃ before e after, log = before ++ e :: after ∧ Quiet before ∧
      e.effective = true := by
  induction log with
  | nil => exact Or.inl (by simp [Quiet])
  | cons x log ih =>
    cases hx : x.effective with
    | true => exact Or.inr ⟨[], x, log, rfl, by simp [Quiet], hx⟩
    | false =>
      have hquiet : ∀ {l : List (Entry φ)}, Quiet l → Quiet (x :: l) :=
        fun hl => List.forall_mem_cons.2 ⟨hx, hl⟩
      rcases ih with hlog | ⟨before, e, after, rfl, hbefore, he⟩
      · exact Or.inl (hquiet hlog)
      · exact Or.inr ⟨x :: before, e, after, rfl, hquiet hbefore, he⟩

theorem Quiet.any_eq_false {log : List (Entry φ)} (hlog : Quiet log) :
    log.any Entry.effective = false :=
  List.any_eq_false.2 fun e he => by simp [hlog e he]

/-- A stop that counts stands behind a quiet part of the record. -/
theorem Quiet.exists_of_append_eq {as bs before after : List (Entry φ)} {e : Entry φ}
    (has : Quiet as) (he : e.effective = true) (heq : as ++ bs = before ++ e :: after) :
    ∃ mid, before = as ++ mid ∧ bs = mid ++ e :: after := by
  rcases List.append_eq_append_iff.1 heq with ⟨mid, hbefore, hbs⟩ | ⟨mid, has', hafter⟩
  · exact ⟨mid, hbefore, hbs⟩
  · cases mid with
    | nil => exact ⟨[], by simpa using has'.symm, by simpa using hafter.symm⟩
    | cons x mid =>
      obtain ⟨rfl, -⟩ := List.cons.inj hafter
      have hmem : e ∈ as := has' ▸ List.mem_append_right before (List.mem_cons_self ..)
      exact absurd ((has e hmem).symm.trans he) (by simp)

/-- A stop that counts stands in front of a quiet part of the record. -/
theorem Quiet.exists_of_eq_append {as bs before after : List (Entry φ)} {e : Entry φ}
    (hbs : Quiet bs) (he : e.effective = true) (heq : as ++ bs = before ++ e :: after) :
    ∃ later, after = later ++ bs ∧ as = before ++ e :: later := by
  have hnot : e ∉ bs := fun hmem => absurd ((hbs e hmem).symm.trans he) (by simp)
  rcases List.append_eq_append_iff.1 heq with ⟨mid, -, hbs'⟩ | ⟨mid, has, hafter⟩
  · exact absurd (hbs' ▸ List.mem_append_right mid (List.mem_cons_self ..)) hnot
  · cases mid with
    | nil =>
      rw [List.nil_append] at hafter
      exact absurd (hafter ▸ List.mem_cons_self ..) hnot
    | cons x mid =>
      obtain ⟨rfl, htail⟩ := List.cons.inj hafter
      exact ⟨mid, htail, has⟩

/-- A place in a record with one entry more is the last one, or a place in the record. -/
theorem eq_of_concat_eq {β : Type} {log before after : List β} {x e : β}
    (heq : log ++ [x] = before ++ e :: after) :
    (log = before ∧ x = e ∧ after = []) ∨
      ∃ later, after = later ++ [x] ∧ log = before ++ e :: later := by
  rcases List.eq_nil_or_concat after with rfl | ⟨later, y, rfl⟩
  · obtain ⟨hlog, hx⟩ := List.append_inj' heq rfl
    exact Or.inl ⟨hlog, (List.cons.inj hx).1, rfl⟩
  · rw [List.concat_eq_append, ← List.cons_append, ← List.append_assoc] at heq
    rw [List.concat_eq_append]
    obtain ⟨hlog, hx⟩ := List.append_inj' heq rfl
    exact Or.inr ⟨later, by rw [(List.cons.inj hx).1], hlog⟩

theorem applications_eq_nil {log : List (Entry φ)}
    (hlog : ∀ e ∈ log, e.moment.applying? = none) : applications log = [] :=
  List.filterMap_eq_nil_iff.2 hlog

theorem applications_cons_of_none {x : Entry φ} (hx : x.moment.applying? = none)
    (log : List (Entry φ)) : applications (x :: log) = applications log :=
  List.filterMap_cons_none hx

theorem applications_cons_of_some {x : Entry φ} {op : Op} (hx : x.moment.applying? = some op)
    (log : List (Entry φ)) : applications (x :: log) = op :: applications log :=
  List.filterMap_cons_some hx

theorem applications_concat (log : List (Entry φ)) {x : Entry φ}
    (hx : x.moment.applying? = none) : applications (log ++ [x]) = applications log := by
  have hnil : applications [x] = [] := applications_eq_nil (by simpa using hx)
  rw [applications_append, hnil, List.append_nil]

end Records

end BlockRobot
