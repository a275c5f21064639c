import BlockRobot.Proofs.Double.Nearest

/-!
# How far rounding goes

Rounding to a whole number goes a half at most (`roundHalfEven_near`), and a double that a
quotient is rounded to is as near to it as half a step of the band of the quotient
(`Double.units_nearest_near`).  The second follows from the first, because the units of a finite
rounded quotient are its significand shifted by its band and nothing else, also where the
significand is short or was rounded up to a power of two (`Double.units_nearest`).

Whatever is less than a half away from a whole number is rounded to it, so two roundings one
after the other come to a whole number exactly if the first goes little enough
(`roundHalfEven_eq_of_near`).
-/

namespace BlockRobot

/-- Rounding to a whole number goes a half at most, up or down. -/
theorem roundHalfEven_near (n : Nat) {d : Nat} (hd : 0 < d) :
    2 * (roundHalfEven n d * d) ≤ 2 * n + d ∧ 2 * n ≤ 2 * (roundHalfEven n d * d) + d := by
  have hparts := Nat.div_add_mod' n d
  have hrest := Nat.mod_lt n hd
  have hnext : (n / d + 1) * d = n / d * d + d := Nat.succ_mul ..
  rw [roundHalfEven]
  split
  · omega
  · split
    · omega
    · rcases Nat.mod_two_eq_zero_or_one (n / d) with h | h <;> rw [h]
      · rw [Nat.add_zero]
        omega
      · omega

/-- A quotient is rounded to the whole number that is less than a half away. -/
theorem roundHalfEven_eq_of_near {n d k : Nat} (hd : 0 < d) (habove : 2 * (k * d) < 2 * n + d)
    (hbelow : 2 * n < 2 * (k * d) + d) : roundHalfEven n d = k := by
  obtain ⟨hup, hdown⟩ := roundHalfEven_near n hd
  rcases Nat.lt_trichotomy (roundHalfEven n d) k with h | h | h
  · have hstep : (roundHalfEven n d + 1) * d ≤ k * d := Nat.mul_le_mul_right d h
    rw [Nat.succ_mul] at hstep
    omega
  · exact h
  · have hstep : (k + 1) * d ≤ roundHalfEven n d * d := Nat.mul_le_mul_right d h
    rw [Nat.succ_mul] at hstep
    omega

namespace Double

/-- The units of a rounded quotient, if it is finite, are its significand shifted by its band. -/
theorem units_nearest (negative : Bool) {num den : Nat}
    (hfinite : (nearest negative num den).isFinite = true) :
    (nearest negative num den).units =
      roundHalfEven (num * 2 ^ 1074) (den * 2 ^ band (num * 2 ^ 1074) den) *
        2 ^ band (num * 2 ^ 1074) den := by
  have hmagnitude : nearestMagnitude num den < infinityMagnitude := of_decide_eq_true hfinite
  have hunits : (nearest negative num den).units =
      if nearestMagnitude num den < 2 ^ 52 then nearestMagnitude num den
      else (2 ^ 52 + nearestMagnitude num den % 2 ^ 52) *
        2 ^ (nearestMagnitude num den / 2 ^ 52 - 1) := rfl
  rw [hunits]
  rw [nearestMagnitude] at hmagnitude ⊢
  generalize num * 2 ^ 1074 = n at hmagnitude ⊢
  have hle := roundHalfEven_band_le n den
  have hge : 0 < band n den → 2 ^ 52 ≤ roundHalfEven n (den * 2 ^ band n den) :=
    le_roundHalfEven_band
  generalize band n den = b at hmagnitude hle hge ⊢
  generalize roundHalfEven n (den * 2 ^ b) = r at hmagnitude hle hge ⊢
  have hmin : min infinityMagnitude (b * 2 ^ 52 + r) = b * 2 ^ 52 + r := by omega
  rw [hmin]
  split
  · -- only in the first band a significand is so short
    have hb : b = 0 := by omega
    rw [hb, Nat.zero_mul, Nat.zero_add, Nat.pow_zero, Nat.mul_one]
  · rcases Nat.lt_or_eq_of_le hle with hlt | heq
    · have hdiv : (b * 2 ^ 52 + r) / 2 ^ 52 - 1 = b := by omega
      have hmod : 2 ^ 52 + (b * 2 ^ 52 + r) % 2 ^ 52 = r := by omega
      rw [hdiv, hmod]
    · -- rounded up to a power of two, it steps into the next band
      have hdiv : (b * 2 ^ 52 + r) / 2 ^ 52 - 1 = b + 1 := by omega
      have hmod : 2 ^ 52 + (b * 2 ^ 52 + r) % 2 ^ 52 = 2 ^ 52 := by omega
      have hexponent : 52 + (b + 1) = 53 + b := by omega
      rw [hdiv, hmod, heq, ← Nat.pow_add, ← Nat.pow_add, hexponent]

/-- **A rounded quotient is as near as half a step of its band.** -/
theorem units_nearest_near (negative : Bool) {num den : Nat} (hden : 0 < den)
    (hfinite : (nearest negative num den).isFinite = true) :
    2 * ((nearest negative num den).units * den) ≤
        2 * (num * 2 ^ 1074) + den * 2 ^ band (num * 2 ^ 1074) den ∧
      2 * (num * 2 ^ 1074) ≤
        2 * ((nearest negative num den).units * den) + den * 2 ^ band (num * 2 ^ 1074) den := by
  rw [units_nearest negative hfinite, Nat.mul_assoc, Nat.mul_comm _ den]
  exact roundHalfEven_near _ (Nat.mul_pos hden (Nat.two_pow_pos _))

/-- A whole number of up to 53 binary digits is a double. -/
theorem units_ofInt {n : Nat} (hn : n < 2 ^ 53) : (ofInt n).units = n * unitsPerOne := by
  have hband : band (n * 2 ^ 1074) 1 ≤ 1074 :=
    band_le_of_lt ((Nat.one_mul (2 ^ 53)).symm ▸ hn) 1074
  have hfinite : (ofInt n).isFinite = true := isFinite_ofInt (by omega)
  have hunits : (ofInt n).units = _ := units_nearest (decide ((n : Int) < 0)) hfinite
  have hdvd : 2 ^ band (n * 2 ^ 1074) 1 ∣ n * 2 ^ 1074 :=
    Nat.dvd_mul_left_of_dvd (Nat.pow_dvd_pow 2 hband) n
  rw [Int.natAbs_natCast, Nat.one_mul, roundHalfEven_of_dvd (Nat.two_pow_pos _)
    (Nat.mod_eq_zero_of_dvd hdvd), Nat.div_mul_cancel hdvd] at hunits
  rw [hunits, unitsPerOne]

end Double

end BlockRobot
