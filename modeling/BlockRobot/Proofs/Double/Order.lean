import BlockRobot.Proofs.Double.Nearest
import BlockRobot.Proofs.Double.WholeParts

/-!
# Rounding keeps the order

A larger quotient is not rounded to a smaller double (`Double.nearestMagnitude_mono`).  Within one
band this is so because rounding to whole numbers keeps the order (`roundHalfEven_mono`).  Between
bands it is not the quotients that are compared: the significand of the lower band comes to `2 ^ 53`
at most, which is where the next band begins.

## Doubles as numbers

`Double.AtMost` is the order of the numbers that doubles stand for, the infinite ones among them.
It is not the order of `Double.rank`: the zeros of both signs are one number, and what is no number
is not compared.
-/

namespace BlockRobot

/-- Rounding to whole numbers keeps the order. -/
theorem roundHalfEven_mono {m n d : Nat} (h : m ≤ n) :
    roundHalfEven m d ≤ roundHalfEven n d := by
  have hm := roundHalfEven_eq_or m d
  have hn := div_le_roundHalfEven n d
  rcases Nat.lt_or_eq_of_le (Nat.div_le_div_right (c := d) h) with hlt | heq
  · omega
  · -- between the same two whole numbers, the rests decide
    have hrest : m % d ≤ n % d := by
      have hpm := Nat.div_add_mod' m d
      have hpn := Nat.div_add_mod' n d
      rw [heq] at hpm
      omega
    simp only [roundHalfEven, heq]
    split <;> split <;> (try split) <;> (try split) <;> omega

namespace Double

/-- A larger magnitude stands for more units. -/
theorem units_mono {a b : Double} (h : a.magnitude ≤ b.magnitude) : a.units ≤ b.units := by
  rw [units, units]
  split
  · split
    · exact h
    · have hpos := Nat.two_pow_pos (b.magnitude / 2 ^ 52 - 1)
      have hle := Nat.le_mul_of_pos_right (2 ^ 52 + b.magnitude % 2 ^ 52) hpos
      omega
  · rw [if_neg (by omega)]
    rcases Nat.lt_or_eq_of_le (Nat.div_le_div_right (c := 2 ^ 52) h) with hlt | heq
    · set e := a.magnitude / 2 ^ 52 - 1 with he
      have hdouble : (2 ^ 52 + a.magnitude % 2 ^ 52) * 2 ^ e ≤ 2 ^ 52 * 2 ^ (e + 1) := by
        have htwice : 2 ^ (e + 1) = 2 * 2 ^ e := Nat.pow_succ'
        rw [htwice, ← Nat.mul_assoc]
        exact Nat.mul_le_mul_right _ (by omega)
      refine Nat.le_trans hdouble (Nat.mul_le_mul (Nat.le_add_right _ _) ?_)
      exact Nat.pow_le_pow_right (by decide) (by omega)
    · rw [heq]
      exact Nat.mul_le_mul_right _ (by omega)

/-! ## Rounding -/

theorem band_mono {m n den : Nat} (h : m ≤ n) : band m den ≤ band n den := by
  have hle : m / den ≤ n / den := Nat.div_le_div_right h
  have hlog : (m / den).log2 ≤ (n / den).log2 := by
    by_cases hm : m / den = 0
    · rw [hm, Nat.log2_zero]
      exact Nat.zero_le _
    · exact le_log2_of_pow_le (Nat.le_trans (Nat.log2_self_le hm) hle)
  rw [band, band]
  omega

/-- **A larger quotient is not rounded to a smaller double.** -/
theorem nearestMagnitude_mono {num num' den : Nat} (h : num ≤ num') :
    nearestMagnitude num den ≤ nearestMagnitude num' den := by
  have hscaled : num * 2 ^ 1074 ≤ num' * 2 ^ 1074 := Nat.mul_le_mul_right _ h
  rw [nearestMagnitude, nearestMagnitude]
  generalize num * 2 ^ 1074 = m at hscaled ⊢
  generalize num' * 2 ^ 1074 = n at hscaled ⊢
  have hinner : band m den * 2 ^ 52 + roundHalfEven m (den * 2 ^ band m den) ≤
      band n den * 2 ^ 52 + roundHalfEven n (den * 2 ^ band n den) := by
    have hband : band m den ≤ band n den := band_mono hscaled
    rcases Nat.lt_or_eq_of_le hband with hlt | heq
    · have hm := roundHalfEven_band_le m den
      have hn := le_roundHalfEven_band (Nat.lt_of_le_of_lt (Nat.zero_le _) hlt)
      omega
    · rw [heq]
      exact Nat.add_le_add_left (roundHalfEven_mono hscaled) _
  omega

/-! ## The order of numbers -/

/-- Both are numbers, and the first is not larger than the second.  The zeros of both signs are
one number. -/
def AtMost (a b : Double) : Prop :=
  a.isNaN = false ∧ b.isNaN = false ∧ a.extendedValue ≤ b.extendedValue

theorem extendedValue_zero : zero.extendedValue = 0 := by
  rw [extendedValue_of_isFinite rfl, value_zero]
  rfl

/-- Nothing without a minus is below zero. -/
theorem extendedValue_nonneg {d : Double} (hsign : d.negative = false) : 0 ≤ d.extendedValue := by
  cases hd : d.isFinite with
  | true =>
    rw [extendedValue_of_isFinite hd, value_of_not_negative hsign]
    exact_mod_cast units_div_nonneg d
  | false =>
    rw [extendedValue_infinity hd hsign]
    exact_mod_cast le_top

/-- Nothing with a minus is above zero. -/
theorem extendedValue_nonpos {d : Double} (hsign : d.negative = true) : d.extendedValue ≤ 0 := by
  cases hd : d.isFinite with
  | true =>
    rw [extendedValue_of_isFinite hd, value_of_negative hsign]
    exact_mod_cast neg_nonpos.2 (units_div_nonneg d)
  | false =>
    rw [extendedValue_negativeInfinity hd hsign]
    exact bot_le

theorem unitsPerOne_pos : 0 < unitsPerOne := by
  rw [unitsPerOne]
  exact Nat.two_pow_pos 1074

theorem value_le_units_div (d : Double) : d.value ≤ d.units / unitsPerOne := by
  have hnonneg := units_div_nonneg d
  rw [value]
  split
  · linarith
  · exact le_refl _

/-- What is at most a finite number, and not negative, is finite and has no more units. -/
theorem AtMost.units_le {a b : Double} (h : a.AtMost b) (hsign : a.negative = false)
    (hb : b.isFinite = true) : a.isFinite = true ∧ a.units ≤ b.units := by
  obtain ⟨-, -, hle⟩ := h
  rw [extendedValue_of_isFinite hb] at hle
  cases ha : a.isFinite with
  | false =>
    rw [extendedValue_infinity ha hsign] at hle
    exact absurd hle (by simp)
  | true =>
    rw [extendedValue_of_isFinite ha, WithBot.coe_le_coe, WithTop.coe_le_coe,
      value_of_not_negative hsign] at hle
    have hunits := (div_le_div_iff_of_pos_right (Nat.cast_pos.2 unitsPerOne_pos)).1
      (hle.trans (value_le_units_div b))
    exact ⟨rfl, Nat.cast_le.1 hunits⟩

/-- What is at most a number with a minus is at most zero. -/
theorem AtMost.zero_of_negative {a b : Double} (h : a.AtMost b) (hb : b.negative = true) :
    a.AtMost zero :=
  ⟨h.1, rfl, extendedValue_zero ▸ h.2.2.trans (extendedValue_nonpos hb)⟩

end Double

end BlockRobot
