import BlockRobot.Compilation
import BlockRobot.Proofs.Double.WholeParts

/-!
# The numbers of a block

A block may hold any text for a number, but only finite doubles count (`Block.isFinite_of_number?`),
and these stand for rational numbers.  So what the compiler writes for a number is said in terms of
the number itself, without a double in between.

* A move goes by the whole part of its number, towards zero, and by one cell if it has none
  (`Vocabulary.stepsOf_eq`).  A move back goes by the negative, except that the least integer has
  none and the largest is taken for it (`Vocabulary.stepsBackOf_eq`).
* A loop runs as often as the whole part of its number says, rounded down
  (`Vocabulary.repetitions_timesOf`), and a wait takes the number as it is
  (`Vocabulary.value_msOf`).  Both have zero for a number that is missing.
-/

namespace BlockRobot

/-! ## Only finite numbers count -/

theorem Double.isFinite_of_ofText? {cs : List Char} {d : Double} (h : ofText? cs = some d) :
    d.isFinite = true := by
  unfold ofText? at h
  split at h
  · cases h
  · split at h
    · rename_i hfinite
      exact Option.some.inj h ▸ hfinite
    · cases h

theorem Json.isFinite_of_asDouble? {j : Json} {d : Double} (h : j.asDouble? = some d) :
    d.isFinite = true := by
  unfold asDouble? at h
  split at h
  · split at h
    · rename_i hfinite
      exact Option.some.inj h ▸ hfinite
    · cases h
  · exact Double.isFinite_of_ofText? h
  · cases h

/-- Only finite numbers are read from a block. -/
theorem Block.isFinite_of_number? {b : Block} {name : String} {d : Double}
    (h : b.number? name = some d) : d.isFinite = true := by
  unfold number? at h
  split at h
  · rename_i e he
    obtain rfl := Option.some.inj h
    obtain ⟨j, -, hj⟩ := Option.bind_eq_some_iff.1 he
    exact Json.isFinite_of_asDouble? hj
  · obtain ⟨value, -, hvalue⟩ := Option.bind_eq_some_iff.1 h
    obtain ⟨field, -, hfield⟩ := List.exists_of_findSome?_eq_some hvalue
    exact Json.isFinite_of_asDouble? hfield

namespace Vocabulary

variable (v : Vocabulary) (b : Block)

/-! ## Cells to go -/

/-- **A move goes by the whole part of its number**, in the range of integers of 32 bits, and by one
cell if it has none. -/
theorem stepsOf_eq :
    v.stepsOf b = ((b.number? v.fields.steps).map fun d =>
      max Double.leastInteger (min Double.largestInteger (Double.towardsZero d.value))).getD 1 := by
  rw [stepsOf]
  cases h : b.number? v.fields.steps with
  | none => rfl
  | some d => exact Double.truncated_eq_towardsZero (Block.isFinite_of_number? h)

theorem stepsOf_bounds :
    Double.leastInteger ≤ v.stepsOf b ∧ v.stepsOf b ≤ Double.largestInteger := by
  have hrange : Double.leastInteger ≤ Double.largestInteger := by decide
  rw [stepsOf_eq]
  cases b.number? v.fields.steps with
  | none => decide
  | some d => exact ⟨le_max_left _ _, max_le hrange (min_le_left _ _)⟩

/-- **A move back goes by the negative**, and by the largest integer if there is none. -/
theorem stepsBackOf_eq :
    v.stepsBackOf b =
      if v.stepsOf b = Double.leastInteger then Double.largestInteger else -(v.stepsOf b) := by
  obtain ⟨hleast, hlargest⟩ := v.stepsOf_bounds b
  unfold Double.leastInteger Double.largestInteger at *
  rw [stepsBackOf, Double.largestInteger]
  split <;> omega

theorem stepsBackOf_bounds :
    Double.leastInteger ≤ v.stepsBackOf b ∧ v.stepsBackOf b ≤ Double.largestInteger := by
  obtain ⟨hleast, hlargest⟩ := v.stepsOf_bounds b
  rw [stepsBackOf_eq]
  unfold Double.leastInteger Double.largestInteger at *
  split <;> omega

/-! ## Rounds and milliseconds -/

theorem isFinite_getD_number? (name : String) :
    ((b.number? name).getD .zero).isFinite = true := by
  cases h : b.number? name with
  | none => rfl
  | some d => exact Block.isFinite_of_number? h

theorem isFinite_timesOf : (v.timesOf b).isFinite = true := isFinite_getD_number? b _

theorem isFinite_msOf : (v.msOf b).isFinite = true := isFinite_getD_number? b _

/-- **A loop runs as often as the whole part of its number says**, rounded down, in the range of
counts of 64 bits, and not at all if it has none. -/
theorem repetitions_timesOf :
    ((v.timesOf b).repetitions : ℤ) = ((b.number? v.fields.times).map fun d =>
      min (max 0 ⌊d.value⌋) (Double.largestCount : ℤ)).getD 0 := by
  rw [Double.repetitions_eq_floor (v.isFinite_timesOf b), timesOf]
  cases b.number? v.fields.times with
  | none =>
    rw [Option.getD_none, Double.value_zero, Int.floor_zero, max_self]
    exact min_eq_left (Nat.cast_nonneg _)
  | some d => rfl

/-- **A wait takes its number as it is**, and zero if it has none. -/
theorem value_msOf :
    (v.msOf b).value = ((b.number? v.fields.ms).map Double.value).getD 0 := by
  rw [msOf]
  cases b.number? v.fields.ms with
  | none => exact Double.value_zero
  | some d => rfl

end Vocabulary

end BlockRobot
