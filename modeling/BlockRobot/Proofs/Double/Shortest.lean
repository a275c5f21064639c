import BlockRobot.Proofs.Double.Digits
import BlockRobot.Proofs.Double.Nearest

/-!
# The digits of a double read back

The search for the shortest digits tries each candidate by reading it back, so there is
little to prove about what it finds: of two candidates that both read back the closer one is
taken, and it is one of the two.  What is left is the whole expansion, for the case that
nothing is found, and that is the value of the double itself.
-/

namespace BlockRobot

namespace Double

theorem readsBack_iff {d : Double} {digits : Nat} {exponent : Int} :
    d.readsBack digits exponent = true ↔ (Numeral.mk d.negative digits exponent).toDouble = d := by
  rw [readsBack, decide_eq_true_iff]

/-- Digits that the search finds read back. -/
theorem readsBack_digitsAfterCut? {d : Double} {cut digits : Nat}
    (h : d.digitsAfterCut? cut = some digits) :
    d.readsBack digits ((cut : Int) - 1074) = true := by
  rw [digitsAfterCut?] at h
  split at h
  · rename_i hbelow
    split at h
    · rename_i habove
      rw [← Option.some.inj h]
      rcases roundHalfEven_eq_or d.expansion (10 ^ cut) with hr | hr <;> rw [hr] <;> assumption
    · exact Option.some.inj h ▸ hbelow
  · split at h
    · rename_i habove
      exact Option.some.inj h ▸ habove
    · cases h

/-- The whole expansion reads back. -/
theorem readsBack_expansion {d : Double} (hd : d.isFinite = true) :
    d.readsBack d.expansion (-1074) = true := by
  have hvalue : ∀ u n : Nat, u * 5 ^ n * 10 ^ (-(n : Int)).toNat * 2 ^ n =
      u * 10 ^ (-(-(n : Int))).toNat := fun u n => by
    have hneg : (-(n : Int)).toNat = 0 := by omega
    rw [hneg, Int.neg_neg, Int.toNat_natCast, Nat.pow_zero, Nat.mul_one, Nat.mul_assoc,
      ← Nat.mul_pow]
  rw [readsBack_iff, Numeral.toDouble_eq]
  refine Eq.trans (nearest_congr d.negative (Nat.pow_pos (by decide)) (Nat.two_pow_pos 1074) ?_)
    (nearest_units hd)
  exact hvalue d.units 1074

/-- **The shortest digits read back.** -/
theorem readsBack_shortest {d : Double} (hd : d.isFinite = true) :
    d.readsBack d.shortest.1 d.shortest.2 = true := by
  rw [shortest]
  cases hfound : (List.range 17).findSome? fun i =>
      (d.digitsAfterCut? (decimalLength d.expansion - (i + 1))).map fun digits =>
        (digits, ((decimalLength d.expansion - (i + 1) : Nat) : Int) - 1074) with
  | none => exact readsBack_expansion hd
  | some found =>
    obtain ⟨i, -, hi⟩ := List.exists_of_findSome?_eq_some hfound
    obtain ⟨digits, hdigits, rfl⟩ := Option.map_eq_some_iff.1 hi
    exact readsBack_digitsAfterCut? hdigits

/-- The numeral of the shortest digits is read as the double. -/
theorem toDouble_shortest {d : Double} (hd : d.isFinite = true) :
    (Numeral.mk d.negative d.shortest.1 d.shortest.2).toDouble = d :=
  readsBack_iff.1 (readsBack_shortest hd)

/-- A numeral without digits is read as zero. -/
theorem toDouble_zero (negative : Bool) (exponent : Int) :
    (Numeral.mk negative 0 exponent).toDouble = ⟨negative, 0, by decide⟩ := by
  rw [Numeral.toDouble, if_pos rfl, nearest, Double.mk.injEq]
  exact ⟨rfl, nearestMagnitude_zero Nat.one_pos⟩

theorem magnitude_eq_zero {d : Double} (h : d.units = 0) : d.magnitude = 0 := by
  rw [units] at h
  split at h
  · exact h
  · rcases Nat.mul_eq_zero.1 h with h | h
    · omega
    · exact absurd h (Nat.ne_of_gt (Nat.two_pow_pos _))

theorem units_zero_of_magnitude {d : Double} (h : d.magnitude = 0) : d.units = 0 := by
  rw [units, if_pos (by omega), h]

/-- A double that is not zero has digits. -/
theorem shortest_pos {d : Double} (hd : d.isFinite = true) (hunits : d.units ≠ 0) :
    0 < d.shortest.1 := by
  refine Nat.pos_of_ne_zero fun hzero => hunits (units_zero_of_magnitude ?_)
  rw [← toDouble_shortest hd, hzero, toDouble_zero]

end Double

end BlockRobot
