import BlockRobot.Double.Numeral
import Mathlib.Tactic.Set

/-!
# The closest double depends on the value alone

A quotient of natural numbers is rounded to a double by `Double.nearestMagnitude`.  Two
things are said of it here, and everything known of reading numbers comes from them.

* It depends on the value of the quotient and not on how it is written
  (`nearestMagnitude_congr`), for bands and roundings do not see a common factor.
* A double is closest to its own value (`nearestMagnitude_units`).

What a quotient is rounded to within its band has 53 binary digits, fewer only in the first band
(`roundHalfEven_band_le`, `le_roundHalfEven_band`), so how large a double is can be told from the
band.

## Numerals

`Numeral.toDouble` looks at the size of a numeral before it computes its value, so that a
short text cannot name a number of a billion digits.  What it then takes for granted is what
rounding would come to (`toDouble_eq`): above all doubles the magnitude of infinity, far
below the least one that of zero.  So the double of a numeral is that closest to its value,
and zeros may be moved between its digits and its power of ten (`toDouble_mul_pow`).
-/

namespace BlockRobot

theorem roundHalfEven_mul_left {k : Nat} (hk : 0 < k) (n d : Nat) :
    roundHalfEven (k * n) (k * d) = roundHalfEven n d := by
  have hlt : ∀ a b : Nat, 2 * (k * a) < k * b ↔ 2 * a < b := fun a b => by
    rw [Nat.mul_left_comm, Nat.mul_lt_mul_left hk]
  have hgt : ∀ a b : Nat, k * a < 2 * (k * b) ↔ a < 2 * b := fun a b => by
    rw [Nat.mul_left_comm, Nat.mul_lt_mul_left hk]
  simp only [roundHalfEven, Nat.mul_div_mul_left n d hk, Nat.mul_mod_mul_left, hlt, hgt]

/-- A rounded quotient is not below the quotient without its fraction. -/
theorem div_le_roundHalfEven (n d : Nat) : n / d ≤ roundHalfEven n d := by
  rw [roundHalfEven]
  split
  · exact Nat.le_refl _
  · split <;> omega

/-- What is rounded is the quotient without its fraction, or one more. -/
theorem roundHalfEven_eq_or (n d : Nat) :
    roundHalfEven n d = n / d ∨ roundHalfEven n d = n / d + 1 := by
  rw [roundHalfEven]
  split
  · exact Or.inl rfl
  · split
    · exact Or.inr rfl
    · rcases Nat.mod_two_eq_zero_or_one (n / d) with h | h <;> rw [h]
      · exact Or.inl rfl
      · exact Or.inr rfl

namespace Double

/-! ## Common factors -/

theorem nearestMagnitude_mul_left {k : Nat} (hk : 0 < k) (num den : Nat) :
    nearestMagnitude (k * num) (k * den) = nearestMagnitude num den := by
  have hscaled : k * num * 2 ^ 1074 = k * (num * 2 ^ 1074) := Nat.mul_assoc ..
  have hband : band (k * (num * 2 ^ 1074)) (k * den) = band (num * 2 ^ 1074) den := by
    rw [band, Nat.mul_div_mul_left _ _ hk, band]
  simp only [nearestMagnitude, hscaled, hband, Nat.mul_assoc, roundHalfEven_mul_left hk]

/-- **The closest double depends on the value alone.** -/
theorem nearestMagnitude_congr {num den num' den' : Nat} (hden : 0 < den) (hden' : 0 < den')
    (h : num * den' = num' * den) : nearestMagnitude num den = nearestMagnitude num' den' := by
  rw [← nearestMagnitude_mul_left hden' num den, ← nearestMagnitude_mul_left hden num' den',
    Nat.mul_comm den' num, h, Nat.mul_comm den' den, Nat.mul_comm num' den]

theorem nearest_congr (negative : Bool) {num den num' den' : Nat} (hden : 0 < den)
    (hden' : 0 < den') (h : num * den' = num' * den) :
    nearest negative num den = nearest negative num' den' := by
  have hmagnitude := nearestMagnitude_congr hden hden' h
  simp only [nearest, hmagnitude]

/-! ## Doubles are closest to themselves -/

/-- A value that needs no rounding within its band. -/
theorem nearestMagnitude_of_dvd {u b : Nat} (hb : u.log2 - 52 = b) (hdvd : 2 ^ b ∣ u) :
    nearestMagnitude u (2 ^ 1074) = min infinityMagnitude (b * 2 ^ 52 + u / 2 ^ b) := by
  have hband : ∀ one : Nat, 0 < one → band (u * one) one = b := fun one hone => by
    rw [band, Nat.mul_div_cancel _ hone, hb]
  have hround : ∀ one : Nat, 0 < one → roundHalfEven (u * one) (one * 2 ^ b) = u / 2 ^ b := by
    intro one hone
    rw [Nat.mul_comm u, roundHalfEven_mul_left hone,
      roundHalfEven_of_dvd (Nat.two_pow_pos b) (Nat.mod_eq_zero_of_dvd hdvd)]
  simp only [nearestMagnitude, hband _ (Nat.two_pow_pos 1074), hround _ (Nat.two_pow_pos 1074)]

/-- **A finite double is closest to its own value.** -/
theorem nearestMagnitude_units {d : Double} (hd : d.isFinite = true) :
    nearestMagnitude d.units (2 ^ 1074) = d.magnitude := by
  have hfinite : d.magnitude < infinityMagnitude := of_decide_eq_true hd
  rw [units]
  split
  · rename_i hsmall
    have hband : d.magnitude.log2 - 52 = 0 := by
      by_cases h0 : d.magnitude = 0
      · rw [h0]; rfl
      · exact Nat.sub_eq_zero_of_le (Nat.le_of_lt ((Nat.log2_lt h0).2 hsmall))
    rw [nearestMagnitude_of_dvd hband (Nat.one_dvd _)]
    simp only [Nat.zero_mul, Nat.zero_add, Nat.pow_zero, Nat.div_one]
    omega
  · rename_i hlarge
    set e := d.magnitude / 2 ^ 52 - 1 with he
    set f := 2 ^ 52 + d.magnitude % 2 ^ 52 with hf
    have hfpos : f ≠ 0 := by omega
    have hband : (f * 2 ^ e).log2 - 52 = e := by
      have hpos : 0 < 2 ^ e := Nat.two_pow_pos e
      have hlog : (f * 2 ^ e).log2 = 52 + e := by
        rw [Nat.log2_eq_iff (Nat.mul_ne_zero hfpos (Nat.ne_of_gt hpos)), Nat.add_right_comm,
          Nat.pow_add, Nat.pow_add]
        exact ⟨Nat.mul_le_mul_right _ (by omega), Nat.mul_lt_mul_of_pos_right (by omega) hpos⟩
      omega
    rw [nearestMagnitude_of_dvd hband (Nat.dvd_mul_left _ _),
      Nat.mul_div_cancel _ (Nat.two_pow_pos e)]
    omega

theorem nearest_units {d : Double} (hd : d.isFinite = true) :
    nearest d.negative d.units (2 ^ 1074) = d := by
  have hmagnitude := nearestMagnitude_units hd
  obtain ⟨negative, magnitude, hlt⟩ := d
  rw [nearest, Double.mk.injEq]
  exact ⟨rfl, hmagnitude⟩

/-! ## Bands -/

/-- A quotient shifted by its band is rounded to 53 binary digits, or to the next power of two. -/
theorem roundHalfEven_band_le (n den : Nat) :
    roundHalfEven n (den * 2 ^ band n den) ≤ 2 ^ 53 := by
  have hlt : n / den < 2 ^ 53 * 2 ^ band n den := by
    rw [band, ← Nat.pow_add]
    exact Nat.lt_of_lt_of_le Nat.lt_log2_self (Nat.pow_le_pow_right (by decide) (by omega))
  have hquot : n / (den * 2 ^ band n den) < 2 ^ 53 := by
    rw [← Nat.div_div_eq_div_mul]
    exact (Nat.div_lt_iff_lt_mul (Nat.two_pow_pos _)).2 hlt
  rcases roundHalfEven_eq_or n (den * 2 ^ band n den) with h | h <;> omega

/-- Beyond the first band it has all 53 of them. -/
theorem le_roundHalfEven_band {n den : Nat} (hband : 0 < band n den) :
    2 ^ 52 ≤ roundHalfEven n (den * 2 ^ band n den) := by
  have hquot : n / den ≠ 0 := by
    intro h
    rw [band, h] at hband
    exact absurd hband (by decide)
  have hlog : 52 + band n den = (n / den).log2 := by
    rw [band] at hband ⊢
    omega
  refine Nat.le_trans ?_ (div_le_roundHalfEven _ _)
  rw [← Nat.div_div_eq_div_mul, Nat.le_div_iff_mul_le (Nat.two_pow_pos _), ← Nat.pow_add, hlog]
  exact Nat.log2_self_le hquot

/-- The band of a quotient below a power of two. -/
theorem band_le_of_lt {num den k : Nat} (h : num < den * 2 ^ k) (j : Nat) :
    band (num * 2 ^ j) den ≤ k + j - 53 := by
  have hquot : num * 2 ^ j / den < 2 ^ (k + j) := by
    refine Nat.div_lt_of_lt_mul ?_
    rw [Nat.pow_add, ← Nat.mul_assoc]
    exact Nat.mul_lt_mul_of_pos_right h (Nat.two_pow_pos j)
  rw [band]
  by_cases hzero : num * 2 ^ j / den = 0
  · rw [hzero, Nat.log2_zero, Nat.zero_sub]
    exact Nat.zero_le _
  · have hlog : (num * 2 ^ j / den).log2 < k + j := (Nat.log2_lt hzero).2 hquot
    omega

/-! ## Beyond all doubles, and below them -/

theorem le_log2_of_pow_le {k n : Nat} (h : 2 ^ k ≤ n) : k ≤ n.log2 :=
  (Nat.le_log2 (Nat.ne_of_gt (Nat.lt_of_lt_of_le (Nat.two_pow_pos k) h))).2 h

/-- What is at least `2 ^ 1024` is rounded to infinity. -/
theorem nearestMagnitude_of_le {num den k : Nat} (hden : 0 < den) (hk : 1024 ≤ k)
    (h : 2 ^ k * den ≤ num) : nearestMagnitude num den = infinityMagnitude := by
  set scaled := num * 2 ^ 1074 with hscaled
  have hlarge : 2 ^ (k + 1074) ≤ scaled / den := by
    rw [Nat.le_div_iff_mul_le hden, hscaled, Nat.pow_add, Nat.mul_right_comm]
    exact Nat.mul_le_mul_right _ h
  have hlog := le_log2_of_pow_le hlarge
  have hband : 2046 ≤ band scaled den := by
    rw [band]
    omega
  have hround : 2 ^ 52 ≤ roundHalfEven scaled (den * 2 ^ band scaled den) :=
    le_roundHalfEven_band (by omega)
  have hsteps : 2046 * 2 ^ 52 ≤ band scaled den * 2 ^ 52 := Nat.mul_le_mul_right _ hband
  rw [nearestMagnitude, ← hscaled]
  refine Nat.min_eq_left ?_
  simp only [infinityMagnitude]
  omega

/-- What is less than `2 ^ 1023` is not rounded to infinity. -/
theorem nearestMagnitude_lt_infinityMagnitude {num den k : Nat} (hk : k ≤ 1023)
    (h : num < den * 2 ^ k) : nearestMagnitude num den < infinityMagnitude := by
  have hband : band (num * 2 ^ 1074) den ≤ 2044 := Nat.le_trans (band_le_of_lt h 1074) (by omega)
  have hround := roundHalfEven_band_le (num * 2 ^ 1074) den
  have hsteps : band (num * 2 ^ 1074) den * 2 ^ 52 ≤ 2044 * 2 ^ 52 := Nat.mul_le_mul_right _ hband
  refine Nat.lt_of_le_of_lt (Nat.min_le_right _ _) ?_
  rw [infinityMagnitude]
  omega

/-- Integers of 64 bits, signed or not, are finite as doubles. -/
theorem isFinite_ofInt {i : Int} (hi : -2 ^ 63 ≤ i ∧ i < 2 ^ 64) : (ofInt i).isFinite = true := by
  have habs : i.natAbs < 2 ^ 64 := by omega
  exact decide_eq_true (nearestMagnitude_lt_infinityMagnitude (by decide)
    ((Nat.one_mul (2 ^ 64)).symm ▸ habs))

/-- What is less than half the least positive double is rounded to zero. -/
theorem nearestMagnitude_of_lt {num den : Nat} (h : 2 * (num * 2 ^ 1074) < den) :
    nearestMagnitude num den = 0 := by
  have hquot : num * 2 ^ 1074 / den = 0 := Nat.div_eq_of_lt (by omega)
  have hrest : num * 2 ^ 1074 % den = num * 2 ^ 1074 := Nat.mod_eq_of_lt (by omega)
  have hband : band (num * 2 ^ 1074) den = 0 := by
    rw [band, hquot]
    rfl
  have hround : roundHalfEven (num * 2 ^ 1074) den = 0 := by
    rw [roundHalfEven, hrest, if_pos h, hquot]
  rw [nearestMagnitude, hband, Nat.pow_zero, Nat.mul_one, hround]
  rfl

theorem nearestMagnitude_zero {den : Nat} (hden : 0 < den) : nearestMagnitude 0 den = 0 := by
  refine nearestMagnitude_of_lt ?_
  simp only [Nat.zero_mul, Nat.mul_zero]
  exact hden

end Double

namespace Numeral

/-- What looks large at first is large. -/
theorem le_digits_mul_pow {digits e k : Nat} (hdigits : digits ≠ 0)
    (h : k ≤ digits.log2 + 3 * e) : 2 ^ k ≤ digits * 10 ^ e := by
  calc 2 ^ k ≤ 2 ^ (digits.log2 + 3 * e) := Nat.pow_le_pow_right (by decide) h
    _ = 2 ^ digits.log2 * 8 ^ e := by rw [Nat.pow_add, Nat.pow_mul]
    _ ≤ digits * 10 ^ e :=
      Nat.mul_le_mul (Nat.log2_self_le hdigits) (Nat.pow_le_pow_left (by decide) e)

/-- What looks small at first is small. -/
theorem digits_lt_pow {digits e k : Nat} (h : digits.log2 + (k + 3) ≤ 3 * e) :
    2 * (digits * 2 ^ k) < 10 ^ e := by
  calc 2 * (digits * 2 ^ k) = digits * 2 ^ (k + 1) := by
        rw [Nat.pow_succ, Nat.mul_left_comm, Nat.mul_comm 2]
    _ < 2 ^ (digits.log2 + 1) * 2 ^ (k + 1) :=
      Nat.mul_lt_mul_of_pos_right Nat.lt_log2_self (Nat.two_pow_pos _)
    _ = 2 ^ (digits.log2 + 1 + (k + 1)) := (Nat.pow_add ..).symm
    _ ≤ 2 ^ (3 * e) := Nat.pow_le_pow_right (by decide) (by omega)
    _ = 8 ^ e := by rw [Nat.pow_mul]
    _ ≤ 10 ^ e := Nat.pow_le_pow_left (by decide) e

/-- **The double of a numeral is the one closest to its value**: the bounds that are looked
at first decide nothing. -/
theorem toDouble_eq (n : Numeral) :
    n.toDouble =
      Double.nearest n.negative (n.digits * 10 ^ n.exponent.toNat) (10 ^ (-n.exponent).toNat) := by
  obtain ⟨negative, digits, exponent⟩ := n
  rw [toDouble]
  dsimp only
  split
  · rename_i hdigits
    rw [hdigits, Nat.zero_mul]
    exact Double.nearest_congr negative Nat.one_pos (Nat.pow_pos (by decide)) (by simp)
  · rename_i hdigits
    split
    · rename_i hexp
      have hneg : (-exponent).toNat = 0 := by omega
      rw [hneg, Nat.pow_zero]
      split
      · rename_i hlarge
        have hpow := le_digits_mul_pow hdigits (Nat.le_refl (digits.log2 + 3 * exponent.toNat))
        rw [← Nat.mul_one (2 ^ _)] at hpow
        have hmagnitude := Double.nearestMagnitude_of_le Nat.one_pos hlarge hpow
        simp only [Double.nearest, hmagnitude]
      · rfl
    · rename_i hexp
      have htoNat : exponent.toNat = 0 := by omega
      have hneg : (-exponent).toNat = exponent.natAbs := by omega
      rw [htoNat, hneg, Nat.pow_zero, Nat.mul_one]
      split
      · rename_i hsmall
        have hmagnitude :=
          Double.nearestMagnitude_of_lt (digits_lt_pow (k := 1074) hsmall)
        have hzero := Double.nearestMagnitude_zero Nat.one_pos
        simp only [Double.nearest, hmagnitude, hzero]
      · rfl

/-- **Zeros may be moved between the digits of a numeral and its power of ten.** -/
theorem toDouble_mul_pow (negative : Bool) (digits k : Nat) (exponent : Int) :
    (Numeral.mk negative (digits * 10 ^ k) (exponent - k)).toDouble =
      (Numeral.mk negative digits exponent).toDouble := by
  rw [toDouble_eq, toDouble_eq]
  refine Double.nearest_congr negative (Nat.pow_pos (by decide)) (Nat.pow_pos (by decide)) ?_
  dsimp only
  have hsum : k + (exponent - k).toNat + (-exponent).toNat =
      exponent.toNat + (-(exponent - k)).toNat := by omega
  rw [Nat.mul_assoc, Nat.mul_assoc, Nat.mul_assoc, ← Nat.pow_add, ← Nat.pow_add, ← Nat.pow_add,
    ← Nat.add_assoc, hsum]

end Numeral

end BlockRobot
