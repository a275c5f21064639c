import BlockRobot.Board
import BlockRobot.Level

/-!
# Steps of 32-bit cells

The coordinates of a cell are integers without bounds here.  A machine keeps each in 32 bits
(`Cell.Fits`), and its sums start again at the other end when they leave the range, so that a step
leads it from `c` to `(c.step f back).wrapped`.

That cell is another one where the step crosses the end of the range, but no game can tell.  A game
looks at the cell ahead only to see whether it is inside, and uses the cell itself only if it is.

* `withinSize_wrapped_step`: **the wrapped step is inside exactly when the unbounded one is.**  One
  below the least integer becomes the largest, which no size of 32 bits reaches; one above the
  largest becomes the least, which is negative.
* `Cell.wrapped_step_of_withinSize`: inside, the two are the same cell.

Both games need no more (`Level.isOpen_wrapped_step`, `Board.inBounds_wrapped_step`).
-/

namespace BlockRobot

open Double (leastInteger largestInteger)

/-! ## Integers of 32 bits -/

/-- What a machine keeps of an integer, in 32 bits with a sign. -/
def wrapped32 (n : Int) : Int := n.bmod (2 ^ 32)

theorem wrapped32_of_fits {n : Int} (hleast : leastInteger ≤ n) (hlargest : n ≤ largestInteger) :
    wrapped32 n = n := by
  unfold leastInteger at hleast
  unfold largestInteger at hlargest
  exact Int.bmod_eq_of_le (by omega) (by omega)

/-- One above the largest integer is the least. -/
theorem wrapped32_above : wrapped32 (largestInteger + 1) = leastInteger := by decide

/-- One below the least integer is the largest. -/
theorem wrapped32_below : wrapped32 (leastInteger - 1) = largestInteger := by decide

/-- An integer that is out of range by one at most is below a size exactly when it is after
wrapping. -/
theorem wrapped32_inside_iff {n size : Int} (hsize : size ≤ largestInteger)
    (hleast : leastInteger - 1 ≤ n) (hlargest : n ≤ largestInteger + 1) :
    0 ≤ wrapped32 n ∧ wrapped32 n < size ↔ 0 ≤ n ∧ n < size := by
  rcases Int.lt_or_eq_of_le hleast with hleast | rfl
  · rcases Int.lt_or_eq_of_le hlargest with hlargest | rfl
    · rw [wrapped32_of_fits (Int.le_of_sub_one_lt hleast) (Int.lt_add_one_iff.1 hlargest)]
    · rw [wrapped32_above]
      unfold leastInteger
      omega
  · rw [wrapped32_below]
    unfold leastInteger
    omega

/-! ## Cells of 32 bits -/

namespace Cell

/-- Whether the coordinates of a cell are integers of 32 bits. -/
def Fits (c : Cell) : Prop :=
  (leastInteger ≤ c.x ∧ c.x ≤ largestInteger) ∧ leastInteger ≤ c.y ∧ c.y ≤ largestInteger

/-- The cell a machine keeps, with each coordinate in 32 bits. -/
def wrapped (c : Cell) : Cell := ⟨wrapped32 c.x, wrapped32 c.y⟩

theorem wrapped_of_fits {c : Cell} (hc : c.Fits) : c.wrapped = c := by
  obtain ⟨⟨hx, hx'⟩, hy, hy'⟩ := hc
  rw [wrapped, wrapped32_of_fits hx hx', wrapped32_of_fits hy hy']

/-- A step changes each coordinate by one at most. -/
theorem step_bounds (c : Cell) (f : Facing) (back : Bool) :
    (c.x - 1 ≤ (c.step f back).x ∧ (c.step f back).x ≤ c.x + 1) ∧
      c.y - 1 ≤ (c.step f back).y ∧ (c.step f back).y ≤ c.y + 1 := by
  cases f <;> cases back <;> simp only [step_ahead, step_behind, Facing.dx, Facing.dy] <;> omega

variable {width height : Int} (hwidth : width ≤ largestInteger) (hheight : height ≤ largestInteger)

include hwidth hheight

/-- The cells inside a size of 32 bits have coordinates of 32 bits. -/
theorem fits_of_withinSize {c : Cell} (hc : withinSize width height c = true) : c.Fits := by
  obtain ⟨⟨hx, hx'⟩, hy, hy'⟩ := withinSize_iff.1 hc
  unfold Fits leastInteger
  omega

/-- A step that stays inside is not wrapped. -/
theorem wrapped_step_of_withinSize {c : Cell} {f : Facing} {back : Bool}
    (hstep : withinSize width height (c.step f back) = true) :
    (c.step f back).wrapped = c.step f back :=
  wrapped_of_fits (fits_of_withinSize hwidth hheight hstep)

/-- **A wrapped step is inside exactly when the step is.** -/
theorem withinSize_wrapped_step {c : Cell} (hc : c.Fits) (f : Facing) (back : Bool) :
    withinSize width height (c.step f back).wrapped = withinSize width height (c.step f back) := by
  obtain ⟨⟨hx, hx'⟩, hy, hy'⟩ := hc
  obtain ⟨⟨hstep, hstep'⟩, hrise, hrise'⟩ := c.step_bounds f back
  rw [Bool.eq_iff_iff, withinSize_iff, withinSize_iff]
  exact and_congr (wrapped32_inside_iff hwidth (by omega) (by omega))
    (wrapped32_inside_iff hheight (by omega) (by omega))

end Cell

/-! ## Steps in the games -/

/-- In a level, a wrapped step leads to an open cell exactly when the step does. -/
theorem Level.isOpen_wrapped_step {l : Level} (hwidth : l.width ≤ largestInteger)
    (hheight : l.height ≤ largestInteger) {c : Cell} (hc : c.Fits) (f : Facing) (back : Bool) :
    l.isOpen (c.step f back).wrapped = l.isOpen (c.step f back) := by
  have hin := Cell.withinSize_wrapped_step hwidth hheight hc f back
  cases hstep : withinSize l.width l.height (c.step f back) with
  | true => rw [Cell.wrapped_step_of_withinSize hwidth hheight hstep]
  | false =>
    rw [isOpen, isOpen, inBounds, inBounds, hin, hstep, Bool.false_and, Bool.false_and]

/-- On a board, a wrapped step stays on the board exactly when the step does. -/
theorem Board.inBounds_wrapped_step {b : Board} (hwidth : b.width ≤ largestInteger)
    (hheight : b.height ≤ largestInteger) {c : Cell} (hc : c.Fits) (f : Facing) (back : Bool) :
    b.inBounds (c.step f back).wrapped = b.inBounds (c.step f back) :=
  Cell.withinSize_wrapped_step hwidth hheight hc f back

end BlockRobot
