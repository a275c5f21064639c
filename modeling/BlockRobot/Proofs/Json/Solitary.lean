import BlockRobot.Proofs.Json.Building
import BlockRobot.Proofs.Json.Literals
import BlockRobot.Proofs.Json.Yields

/-!
# Texts that are read as one number

A text that is read as a number is a numeral with blanks around it
(`Reader.exists_numeral_of_run`).

The builder of drafts says it.  Once a bracket is open, what the reading ends with is an array or
an object (`Draft.Bracketed`): a cursor inside brackets stays inside, or ends with one of them,
whether the text goes on as it should or not (`Cursor.keeps_inside`).  So a draft that is a number
was built without opening any, and a value outside of brackets is over with its first token.
-/

namespace BlockRobot

/-- A draft of something in brackets. -/
def Draft.Bracketed : Draft → Prop
  | array _ _ => True
  | object _ _ => True
  | _ => False

namespace Frame

theorem bracketed_closed (frame : Frame) (close : Option Fault) :
    (frame.closed close).Bracketed := by
  cases frame <;> exact trivial

/-- What is given up inside brackets is in brackets, whatever it was. -/
theorem bracketed_enclose {d : Draft} {frames : List Frame} (h : frames ≠ [] ∨ d.Bracketed) :
    (enclose d frames).Bracketed := by
  induction frames generalizing d with
  | nil => exact h.resolve_left (absurd rfl)
  | cons frame frames ih => exact ih (Or.inr (bracketed_closed _ _))

end Frame

/-- A step that stays inside of brackets, or ends with some. -/
def Step.Inside : Step → Prop
  | .on c => c.frames ≠ []
  | .whole d => d.Bracketed
  | .stuck d => d.Bracketed

namespace Cursor

theorem inside_accept {d : Draft} {frames : List Frame} (h : frames ≠ [] ∨ d.Bracketed) :
    (accept d frames).Inside := by
  cases frames with
  | nil => exact h.resolve_left (absurd rfl)
  | cons frame frames => cases frame <;> exact List.cons_ne_nil _ _

variable {frames : List Frame} (h : frames ≠ [])

include h

theorem inside_close : (close frames).Inside := by
  obtain ⟨frame, frames, rfl⟩ := List.exists_cons_of_ne_nil h
  exact inside_accept (Or.inr (frame.bracketed_closed none))

theorem bracketed_giveUpValue (f : Fault) : (giveUpValue f frames).Bracketed :=
  Frame.bracketed_enclose (Or.inl h)

theorem bracketed_giveUpClose (f : Fault) : (giveUpClose f frames).Bracketed := by
  obtain ⟨frame, frames, rfl⟩ := List.exists_cons_of_ne_nil h
  exact Frame.bracketed_enclose (Or.inr (frame.bracketed_closed (some f)))

end Cursor

/-- **Whoever is inside of brackets does not get out of them while building.** -/
theorem Cursor.keeps_inside :
    Keeps (fun _ => True) (fun frames => frames ≠ []) Draft.Bracketed Step.Inside where
  on := Iff.rfl
  whole := Iff.rfl
  stuck := Iff.rfl
  openArray _ := List.cons_ne_nil _ _
  openObject _ := List.cons_ne_nil _ _
  accept h _ _ := inside_accept (Or.inl h)
  close h := inside_close h
  enclose h _ _ := Frame.bracketed_enclose (Or.inl h)
  giveUpValue h f := bracketed_giveUpValue h f
  giveUpClose h f := bracketed_giveUpClose h f

namespace Reading

/-- **What is a number as a whole is one token.** -/
theorem eq_singleton_of_ofTokens {tokens : List Token} {n : Number}
    (h : ofTokens .start tokens = ⟨.scalar (.number n), false⟩) :
    tokens = [.scalar (.number n)] := by
  have hopened : ∀ {frame : Frame} {due : Due} {tokens : List Token},
      ofTokens ⟨[frame], due⟩ tokens ≠ ⟨.scalar (.number n), false⟩ := by
    intro frame due tokens heq
    have hbracketed : (ofTokens ⟨[frame], due⟩ tokens).draft.Bracketed :=
      Cursor.keeps_inside.ofTokens (fun _ _ => trivial) (List.cons_ne_nil _ _)
    rw [heq] at hbracketed
    exact hbracketed
  cases tokens with
  | nil => cases h
  | cons token tokens =>
    rw [ofTokens_cons] at h
    cases token with
    | scalar s =>
      cases hstop : Draft.stopOf s with
      | none =>
        rw [Cursor.start, step_scalar (Or.inl rfl) [] hstop] at h
        cases tokens with
        | nil => cases h; rfl
        | cons _ _ => cases h
      | some f =>
        have hspoiled : ∀ n, s ≠ .number n := by
          rintro n rfl
          cases hstop
        have hstuck : Cursor.step .start (.scalar s) = .stuck (.scalar s) := by
          simp [Cursor.start, Cursor.step, Cursor.takeValue, hstop, Frame.enclose]
        rw [hstuck] at h
        exact absurd (Draft.scalar.inj (congrArg Reading.draft h)) (hspoiled n)
    | openArray => exact absurd h hopened
    | openObject => exact absurd h hopened
    | _ => cases h

end Reading

/-- A value is in normal form a number if it is one. -/
theorem Json.eq_number_of_normal {j : Json} {n : Number} (h : j.normal = .number n) :
    j = .number n := by
  cases j <;> cases h
  rfl

/-- A draft that is read as a number is one. -/
theorem Draft.eq_number_of_value {room : Nat} {d : Draft} {n : Number}
    (h : d.value room = .ok (.number n)) : d = .scalar (.number n) := by
  cases d with
  | missing f => cases h
  | scalar s =>
    cases s <;> cases h
    rfl
  | array items close =>
    cases room with
    | zero => cases h
    | succ room =>
      rw [value] at h
      obtain ⟨items, -, h⟩ := exists_of_bind_eq_ok h
      cases eq_of_closing_eq_ok h
  | object members close =>
    cases room with
    | zero => cases h
    | succ room =>
      rw [value] at h
      obtain ⟨members, -, h⟩ := exists_of_bind_eq_ok h
      cases eq_of_closing_eq_ok h

/-- **A text that is read as a number is a numeral with blanks around it.** -/
theorem Reader.exists_numeral_of_run {text : String} {n : Number}
    (h : Reader.json.run text = .ok (.number n)) :
    ∃ before cs after k, text.toList = before ++ cs ++ after ∧ (∀ c ∈ before, isBlank c = true) ∧
      (∀ c ∈ after, isBlank c = true) ∧ Numeral.LaidOut cs k ∧ k.ReadAs n := by
  unfold run at h
  obtain ⟨j, hj, h⟩ := exists_of_bind_eq_ok h
  split at h
  · cases h
  · rename_i hleftover
    obtain rfl := Except.ok.inj h
    obtain ⟨value, hvalue, hnormal⟩ := exists_of_map_eq_ok hj
    obtain rfl := Json.eq_number_of_normal hnormal
    have hdraft := Draft.eq_number_of_value hvalue
    have hreading : Reading.ofText text.toList = ⟨.scalar (.number n), false⟩ :=
      congrArg₂ Reading.mk hdraft (eq_false_of_ne_true hleftover)
    exact Token.exists_numeral_of_listWithin (Nat.le_refl _)
      (Reading.eq_singleton_of_ofTokens hreading)

end BlockRobot
