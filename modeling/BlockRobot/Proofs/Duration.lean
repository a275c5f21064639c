import BlockRobot.Duration
import BlockRobot.Proofs.Double.Distance
import BlockRobot.Proofs.Double.Order

/-!
# Waits are exact and in order

How long a wait lasts is rounded twice, first to a double of seconds and then to a whole number of
nanoseconds.  Neither rounding is noticed where it should not be
(`Duration.waits_are_exact_and_ordered`).

* Both keep the order, and so does cutting at the longest duration (`nanoseconds_capped`), so a
  longer wait does not take less time (`nanoseconds_ofMilliseconds_le`).
* A whole number of milliseconds is waited exactly as long as the first rounding goes less than
  half a nanosecond, for then the second takes it back (`ofMilliseconds_ofInt`).

## Why `2 ^ 32`

Below `2 ^ 23` seconds two doubles stand `2 ^ (-30)` seconds apart or closer, which is less than a
nanosecond, and half of it is what the first rounding goes at most.  A wait of `2 ^ 32` milliseconds
is about half as long as that.  From `2 ^ 23` seconds on the doubles stand twice as far apart, and
the first rounding may go further than the second takes back.
-/

namespace BlockRobot

namespace Duration

open Double

/-- The duration of some nanoseconds, or the longest if they are too many. -/
def capped (ns : Nat) : Duration := if ns < 2 ^ 64 * perSecond then ⟨ns⟩ else longest

theorem nanoseconds_capped (ns : Nat) :
    (capped ns).nanoseconds = min ns longest.nanoseconds := by
  have hlongest : 2 ^ 64 * perSecond = longest.nanoseconds + 1 := by decide
  rw [capped, hlongest]
  split
  · rename_i hlt
    exact (Nat.min_eq_left (Nat.le_of_lt_succ hlt)).symm
  · rename_i hnot
    exact (Nat.min_eq_right (Nat.le_of_not_lt fun hlt => hnot (Nat.lt_succ_of_lt hlt))).symm

/-! ## The four sorts of waits -/

section Sorts

variable {ms : Double}

theorem ofMilliseconds_of_isNaN (hnan : ms.isNaN = true) : ofMilliseconds ms = ⟨0⟩ := by
  rw [ofMilliseconds, hnan, Bool.true_or, if_pos rfl]

theorem ofMilliseconds_of_negative (hsign : ms.negative = true) : ofMilliseconds ms = ⟨0⟩ := by
  rw [ofMilliseconds, hsign, Bool.or_true, if_pos rfl]

theorem ofMilliseconds_of_isFinite (hsign : ms.negative = false) (hms : ms.isFinite = true) :
    ofMilliseconds ms = capped (roundHalfEven ((secondsOf ms).units * perSecond) unitsPerOne) := by
  rw [ofMilliseconds, isNaN_of_isFinite hms, hsign, Bool.or_false, if_neg Bool.false_ne_true,
    if_pos hms]
  rfl

theorem ofMilliseconds_of_infinity (hnan : ms.isNaN = false) (hsign : ms.negative = false)
    (hms : ms.isFinite = false) : ofMilliseconds ms = longest := by
  rw [ofMilliseconds, hnan, hsign, hms]
  rfl

end Sorts

/-! ## Order -/

/-- No wait takes longer than the longest duration. -/
theorem nanoseconds_ofMilliseconds_le_longest (ms : Double) :
    (ofMilliseconds ms).nanoseconds ≤ longest.nanoseconds := by
  cases hnan : ms.isNaN with
  | true => exact ofMilliseconds_of_isNaN hnan ▸ Nat.zero_le _
  | false =>
    cases hsign : ms.negative with
    | true => exact ofMilliseconds_of_negative hsign ▸ Nat.zero_le _
    | false =>
      cases hms : ms.isFinite with
      | true =>
        rw [ofMilliseconds_of_isFinite hsign hms, nanoseconds_capped]
        exact Nat.min_le_right _ _
      | false => exact ofMilliseconds_of_infinity hnan hsign hms ▸ Nat.le_refl _

variable {a b : Double}

theorem units_secondsOf_le (h : a.units ≤ b.units) : (secondsOf a).units ≤ (secondsOf b).units :=
  units_mono (nearestMagnitude_mono h)

/-- Of two waits that are not negative, the longer does not take less time. -/
theorem nanoseconds_le_of_not_negative (h : a.AtMost b) (ha : a.negative = false)
    (hb : b.negative = false) :
    (ofMilliseconds a).nanoseconds ≤ (ofMilliseconds b).nanoseconds := by
  cases hbfinite : b.isFinite with
  | false =>
    rw [ofMilliseconds_of_infinity h.2.1 hb hbfinite]
    exact nanoseconds_ofMilliseconds_le_longest a
  | true =>
    obtain ⟨hafinite, hunits⟩ := h.units_le ha hbfinite
    have hns := roundHalfEven_mono (d := unitsPerOne)
      (Nat.mul_le_mul_right perSecond (units_secondsOf_le hunits))
    rw [ofMilliseconds_of_isFinite ha hafinite, ofMilliseconds_of_isFinite hb hbfinite,
      nanoseconds_capped, nanoseconds_capped]
    omega

/-- **A longer wait does not take less time.** -/
theorem nanoseconds_ofMilliseconds_le (h : a.AtMost b) :
    (ofMilliseconds a).nanoseconds ≤ (ofMilliseconds b).nanoseconds := by
  cases ha : a.negative with
  | true => exact ofMilliseconds_of_negative ha ▸ Nat.zero_le _
  | false =>
    cases hb : b.negative with
    | true =>
      -- the zero with a minus is the one number that can stand here
      have hzero : ofMilliseconds zero = ⟨0⟩ := by decide +kernel
      have hle := nanoseconds_le_of_not_negative (h.zero_of_negative hb) ha rfl
      rwa [hzero, ← ofMilliseconds_of_negative hb] at hle
    | false => exact nanoseconds_le_of_not_negative h ha hb

/-! ## Exactness -/

/-- The nanoseconds of `u` units, with `one` of them to the second, if these are `n` thousandths of
a second but for half a step that is shorter than a nanosecond. -/
theorem roundHalfEven_of_near_thousandths {n u one step : Nat} (hstep : perSecond * step < one)
    (habove : 2 * (u * 1000) ≤ 2 * (n * one) + 1000 * step)
    (hbelow : 2 * (n * one) ≤ 2 * (u * 1000) + 1000 * step) :
    roundHalfEven (u * perSecond) one = n * perMillisecond := by
  have hone : n * perMillisecond * one = n * one * perMillisecond := Nat.mul_right_comm ..
  simp only [perSecond, perMillisecond] at hstep hone ⊢
  refine roundHalfEven_eq_of_near (by omega) ?_ ?_ <;> rw [hone] <;> omega

/-- A step thirty places below one is shorter than a nanosecond. -/
theorem perSecond_mul_two_pow_lt {b k : Nat} (hb : b ≤ k) (hk : 30 + k = 1074) :
    perSecond * 2 ^ b < 2 ^ 1074 := by
  rw [← hk, Nat.pow_add]
  calc perSecond * 2 ^ b
      ≤ perSecond * 2 ^ k := Nat.mul_le_mul_left _ (Nat.pow_le_pow_right (by decide) hb)
    _ < 2 ^ 30 * 2 ^ k := Nat.mul_lt_mul_of_pos_right (by decide) (Nat.two_pow_pos k)

/-- The seconds of a whole number of milliseconds are the double closest to a thousandth of it. -/
theorem secondsOf_ofInt {n : Nat} (hn : n < 2 ^ 53) :
    secondsOf (.ofInt n) = nearest false n 1000 := by
  have hsign : (ofInt n).negative = false := decide_eq_false (Int.not_lt.2 (Int.natCast_nonneg n))
  rw [secondsOf, hsign, units_ofInt hn]
  refine nearest_congr false (Nat.mul_pos (by decide) unitsPerOne_pos) (by decide) ?_
  rw [Nat.mul_assoc, Nat.mul_comm 1000]

/-- **Whole milliseconds are waited exactly**, if they are not more than `2 ^ 32`. -/
theorem ofMilliseconds_ofInt {n : Nat} (hn : n ≤ 2 ^ 32) :
    ofMilliseconds (.ofInt n) = milliseconds n := by
  have hms : (ofInt n).isFinite = true := isFinite_ofInt (by omega)
  have hsign : (ofInt n).negative = false := decide_eq_false (Int.not_lt.2 (Int.natCast_nonneg n))
  have hlt : n < 1000 * 2 ^ 23 := by omega
  have hfinite : (nearest false n 1000).isFinite = true :=
    decide_eq_true (nearestMagnitude_lt_infinityMagnitude (by decide) hlt)
  have hband : band (n * 2 ^ 1074) 1000 ≤ 1044 := band_le_of_lt hlt 1074
  have hstep : perSecond * 2 ^ band (n * 2 ^ 1074) 1000 < 2 ^ 1074 :=
    perSecond_mul_two_pow_lt hband rfl
  obtain ⟨habove, hbelow⟩ := units_nearest_near false (by decide) hfinite
  have hns := roundHalfEven_of_near_thousandths hstep habove hbelow
  have hshort : n * perMillisecond < 2 ^ 64 * perSecond := by
    simp only [perMillisecond, perSecond]
    omega
  rw [ofMilliseconds_of_isFinite hsign hms, secondsOf_ofInt (by omega), unitsPerOne, hns, capped,
    if_pos hshort, milliseconds]

/-- **Waits are exact and in order.**  A whole number of milliseconds up to `2 ^ 32` is waited
exactly, to the nanosecond; of two waits the longer does not take less time, infinite ones
included; and waits that are negative or no number take none. -/
theorem waits_are_exact_and_ordered :
    (∀ n : Nat, n ≤ 2 ^ 32 → ofMilliseconds (.ofInt n) = milliseconds n) ∧
      (∀ a b : Double, a.AtMost b →
        (ofMilliseconds a).nanoseconds ≤ (ofMilliseconds b).nanoseconds) ∧
      ∀ d : Double, d.isNaN = true ∨ d.extendedValue < 0 → ofMilliseconds d = ⟨0⟩ := by
  refine ⟨fun n hn => ofMilliseconds_ofInt hn, fun a b h => nanoseconds_ofMilliseconds_le h, ?_⟩
  rintro d (hnan | hnegative)
  · exact ofMilliseconds_of_isNaN hnan
  · refine ofMilliseconds_of_negative (Bool.not_eq_false _ ▸ fun hsign => ?_)
    exact absurd hnegative (not_lt.2 (extendedValue_nonneg hsign))

/-- A wait without end. -/
def endless : Double := .ofBits infinityMagnitude

/-- A wait that ended before all others. -/
def endedLongAgo : Double := { endless with negative := true }

theorem longWait_is_exact_and_ordered :
    (2 ^ 32 ≤ 2 ^ 32 ∧ ofMilliseconds (.ofInt (2 ^ 32 : Nat)) = milliseconds (2 ^ 32)) ∧
      ((ofInt (2 ^ 32 : Nat)).AtMost endless ∧
        (ofMilliseconds (.ofInt (2 ^ 32 : Nat))).nanoseconds ≤
          (ofMilliseconds endless).nanoseconds) ∧
      endedLongAgo.extendedValue < 0 ∧ ofMilliseconds endedLongAgo = ⟨0⟩ := by
  obtain ⟨hexact, hordered, hnone⟩ := waits_are_exact_and_ordered
  have hendless : endless.extendedValue = ((⊤ : WithTop ℚ) : WithBot (WithTop ℚ)) :=
    extendedValue_infinity rfl rfl
  have hfinite : (ofInt (2 ^ 32 : Nat)).isFinite = true := isFinite_ofInt (by decide)
  have hatMost : (ofInt (2 ^ 32 : Nat)).AtMost endless := by
    refine ⟨isNaN_of_isFinite hfinite, rfl, ?_⟩
    rw [hendless, extendedValue_of_isFinite hfinite]
    exact_mod_cast le_top
  have hnegative : endedLongAgo.extendedValue < 0 := WithBot.bot_lt_coe _
  exact ⟨⟨Nat.le_refl _, hexact _ (Nat.le_refl _)⟩, ⟨hatMost, hordered _ _ hatMost⟩, hnegative,
    hnone _ (.inr hnegative)⟩

end Duration

end BlockRobot
