import BlockRobot.Diagnostic
import BlockRobot.Program

/-!
# Which programs may run

A program may run if it has an instruction, begins with a start, and has at most
`Program.largestCount` instructions.  The rules are checked in this order and the
first one broken is reported, so a broken program breaks exactly one rule.
-/

namespace BlockRobot

/-- A rule that a program breaks. -/
inductive RuleBroken where
  | empty
  | missingStart
  | tooLong (count : Nat)
deriving DecidableEq

/-- The largest number of instructions a program may have. -/
def Program.largestCount : Nat := 200

namespace RuleBroken

/-- The code of a broken rule. -/
def code : RuleBroken → Nat
  | empty => Diagnostic.emptyProgram
  | missingStart => Diagnostic.missingStart
  | tooLong _ => Diagnostic.programTooLong

/-- What the learner is told. -/
def message : RuleBroken → String
  | empty => "Programa vacío."
  | missingStart => "El programa debe comenzar con el bloque de inicio."
  | tooLong _ =>
    "Programa demasiado largo (máx. " ++ toString Program.largestCount ++ " bloques)."

/-- The diagnostic of a broken rule. -/
def diagnostic (r : RuleBroken) : Diagnostic := .ofCode r.code r.message

end RuleBroken

namespace Program

/-- The rule a program breaks, if it breaks one. -/
def ruleBroken? (p : Program) : Option RuleBroken :=
  if p.isEmpty then some .empty
  else if !p.beginsWithStart then some .missingStart
  else if largestCount < p.count then some (.tooLong p.count)
  else none

/-- Whether a program may run. -/
def Runnable (p : Program) : Prop := p.ruleBroken? = none

instance (p : Program) : Decidable p.Runnable := inferInstanceAs (Decidable (_ = _))

/-- The diagnostics of a program: one if it breaks a rule. -/
def diagnostics (p : Program) : List Diagnostic :=
  (p.ruleBroken?.map RuleBroken.diagnostic).toList

/-- A program may run exactly if it begins with a start and is not too long. -/
theorem runnable_iff (p : Program) :
    p.Runnable ↔ p.beginsWithStart = true ∧ p.count ≤ largestCount := by
  obtain ⟨ops⟩ := p
  cases ops with
  | nil => simp [Runnable, ruleBroken?, isEmpty, beginsWithStart]
  | cons op ops =>
    simp only [Runnable, ruleBroken?, isEmpty, List.isEmpty_cons, Bool.false_eq_true, if_false]
    by_cases hs : beginsWithStart ⟨op :: ops⟩ = true
    · simp only [hs, Bool.not_true, Bool.false_eq_true, if_false, true_and]
      by_cases hc : largestCount < count ⟨op :: ops⟩
      · simp [hc, Nat.not_le.2 hc]
      · simp [hc, Nat.not_lt.1 hc]
    · simp [hs]

end Program

end BlockRobot
