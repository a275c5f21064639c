import BlockRobot.Proofs.Grid.Poses

/-!
# The way of a move

`Cell.steps` is the cell a number of steps ahead, or behind.  A robot that goes there enters the
cells in between one after the other, and these are its *way* (`Cell.way`), without the cell it
stands on.

* Two ways one behind the other are one way (`Cell.steps_add`, `Cell.steps_succ_last`).
* Whoever turns back at the end of a way walks over the same cells (`Cell.steps_back`).  The way back
  has as many cells, but they are not the same: the last cell of the way out is missing, and the cell
  it started from has come in (`Cell.way_back`).
-/

namespace BlockRobot

namespace Cell

/-! ## Steps one behind the other -/

theorem steps_add (c : Cell) (f : Facing) (back : Bool) (m n : Nat) :
    c.steps f back (m + n) = (c.steps f back m).steps f back n := by
  induction m generalizing c with
  | zero => rw [Nat.zero_add, steps_zero]
  | succ m ih => rw [Nat.succ_add, steps_succ, steps_succ, ih]

/-- The last step of several. -/
theorem steps_succ_last (c : Cell) (f : Facing) (back : Bool) (n : Nat) :
    c.steps f back (n + 1) = (c.steps f back n).step f back :=
  c.steps_add f back n 1

/-- **Steps back lead over the cells of the way out.** -/
theorem steps_back (c : Cell) (f : Facing) (back : Bool) {k n : Nat} (hk : k ≤ n) :
    (c.steps f back n).steps f (!back) k = c.steps f back (n - k) := by
  induction k with
  | zero => rfl
  | succ k ih =>
    have hlast : n - k = n - (k + 1) + 1 := by omega
    rw [steps_succ_last, ih (Nat.le_of_succ_le hk), hlast, steps_succ_last, step_step_not]

/-! ## Ways -/

/-- The cells that are entered on a number of steps, in order. -/
def way (c : Cell) (f : Facing) (back : Bool) (n : Nat) : List Cell :=
  (List.range n).map fun k => c.steps f back (k + 1)

@[simp] theorem way_zero (c : Cell) (f : Facing) (back : Bool) : c.way f back 0 = [] := rfl

@[simp] theorem length_way (c : Cell) (f : Facing) (back : Bool) (n : Nat) :
    (c.way f back n).length = n := by
  rw [way, List.length_map, List.length_range]

/-- A way is its first cell and the way from there. -/
theorem way_succ (c : Cell) (f : Facing) (back : Bool) (n : Nat) :
    c.way f back (n + 1) = c.step f back :: (c.step f back).way f back n := by
  rw [way, List.range_succ_eq_map, List.map_cons, List.map_map]
  rfl

theorem mem_way_iff {c d : Cell} {f : Facing} {back : Bool} {n : Nat} :
    d ∈ c.way f back n ↔ ∃ k, 1 ≤ k ∧ k ≤ n ∧ c.steps f back k = d := by
  rw [way, List.mem_map]
  constructor
  · rintro ⟨k, hk, rfl⟩
    exact ⟨k + 1, Nat.succ_pos k, List.mem_range.1 hk, rfl⟩
  · rintro ⟨k, hpos, hk, rfl⟩
    obtain ⟨k, rfl⟩ := Nat.exists_eq_add_of_le' hpos
    exact ⟨k, List.mem_range.2 hk, rfl⟩

/-- **The way back**: the cells of the way out in reverse, but for the last, and then the cell from
which it started. -/
theorem way_back (c : Cell) (f : Facing) (back : Bool) (n : Nat) :
    (c.steps f back n).way f (!back) n = (List.range n).reverse.map (c.steps f back) := by
  refine List.ext_getElem (by simp) fun k hk _ => ?_
  rw [length_way] at hk
  simp only [way, List.getElem_map, List.getElem_range, List.getElem_reverse, List.length_range]
  rw [steps_back c f back (Nat.succ_le_of_lt hk)]
  congr 1
  omega

/-- On the way back only the cell from which the way out started is new. -/
theorem eq_or_mem_way_of_mem_way_back {c d : Cell} {f : Facing} {back : Bool} {n : Nat}
    (hd : d ∈ (c.steps f back n).way f (!back) n) : d = c ∨ d ∈ c.way f back n := by
  rw [way_back, List.mem_map] at hd
  obtain ⟨k, hk, rfl⟩ := hd
  rw [List.mem_reverse, List.mem_range] at hk
  rcases Nat.eq_zero_or_pos k with rfl | hpos
  · exact .inl rfl
  · exact .inr (mem_way_iff.2 ⟨k, hpos, hk.le, rfl⟩)

end Cell

end BlockRobot
