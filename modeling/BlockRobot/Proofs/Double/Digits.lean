import BlockRobot.Double.Shortest
import Mathlib.Data.List.TakeDrop

/-!
# Runs of digits

What is written as digits is read as digits: a natural number is the value of its decimal
digits (`digitsValue_toDigits`), a run of digits in front of something else is found whole
(`spanDigits_append`), nothing else is found (`eq_append_of_spanDigits`), and zeros at the end of
a run are a power of ten (`digitsValue_append_zeros`).
-/

namespace BlockRobot

theorem digitsValue_eq (cs : List Char) : digitsValue cs = Nat.ofDigitChars 10 cs 0 :=
  Nat.ofDigitChars_eq_foldl.symm

/-- A natural number is the value of its decimal digits. -/
theorem digitsValue_toDigits (n : Nat) : digitsValue (Nat.toDigits 10 n) = n := by
  rw [digitsValue_eq, Nat.ofDigitChars_ten_toDigits]

theorem digitsValue_append_zeros (ds : List Char) (k : Nat) :
    digitsValue (ds ++ Double.zeros k) = digitsValue ds * 10 ^ k := by
  rw [digitsValue_eq, Nat.ofDigitChars_append, Double.zeros, Nat.ofDigitChars_replicate_zero,
    digitsValue_eq, Nat.mul_comm]

theorem digitsValue_zeros_append (k : Nat) (ds : List Char) :
    digitsValue (Double.zeros k ++ ds) = digitsValue ds := by
  rw [digitsValue_eq, Nat.ofDigitChars_append, Double.zeros, Nat.ofDigitChars_replicate_zero,
    Nat.mul_zero, digitsValue_eq]

/-! ## Finding a run of digits -/

theorem ne_of_isDigit {d x : Char} (hd : isDigit d = true) (hx : isDigit x = false) : d ≠ x := by
  rintro rfl
  rw [hd] at hx
  cases hx

/-- A run of digits in front of anything but a digit is found whole. -/
theorem spanDigits_append {ds rest : List Char} (hds : ∀ c ∈ ds, isDigit c = true)
    (hrest : ∀ c ∈ rest.head?, isDigit c = false) : spanDigits (ds ++ rest) = (ds, rest) := by
  have htake : rest.takeWhile isDigit = [] := by
    cases rest with
    | nil => rfl
    | cons c rest => rw [List.takeWhile_cons, hrest c rfl]; rfl
  have hdrop : rest.dropWhile isDigit = rest := by
    cases rest with
    | nil => rfl
    | cons c rest => rw [List.dropWhile_cons, hrest c rfl]; rfl
  rw [spanDigits, List.span_eq_takeWhile_dropWhile, List.takeWhile_append_of_pos hds,
    List.dropWhile_append_of_pos hds, htake, hdrop, List.append_nil]

/-- A run of digits that is found is at the front, and what follows it begins with no digit. -/
theorem eq_append_of_spanDigits {cs ds rest : List Char} (h : spanDigits cs = (ds, rest)) :
    cs = ds ++ rest ∧ (∀ c ∈ ds, isDigit c = true) ∧ ∀ c ∈ rest.head?, isDigit c = false := by
  rw [spanDigits, List.span_eq_takeWhile_dropWhile] at h
  obtain ⟨rfl, rfl⟩ := Prod.mk.inj h
  refine ⟨List.takeWhile_append_dropWhile.symm,
    fun c hc => List.all_eq_true.1 List.all_takeWhile c hc, fun c hc => ?_⟩
  have hnot := List.head?_dropWhile_not isDigit cs
  rw [Option.mem_def.1 hc] at hnot
  simpa using hnot

theorem isDigit_of_mem_toDigits {n : Nat} {c : Char} (hc : c ∈ Nat.toDigits 10 n) :
    isDigit c = true :=
  Nat.isDigit_of_mem_toDigits (by decide) (by decide) hc

theorem isDigit_of_mem_zeros {k : Nat} {c : Char} (hc : c ∈ Double.zeros k) :
    isDigit c = true := by
  rw [List.eq_of_mem_replicate hc]
  rfl

theorem isDigit_of_mem_zero : ∀ c ∈ ['0'], isDigit c = true := by
  intro c hc
  rw [List.mem_singleton.1 hc]
  rfl

/-! ## The first digit and the last zeros -/

/-- The digits of a positive number begin with a digit that is no zero. -/
theorem exists_toDigits_eq_cons {n : Nat} (hn : 0 < n) :
    ∃ d ds, Nat.toDigits 10 n = d :: ds ∧ d ≠ '0' := by
  induction n using Nat.strongRecOn with
  | ind n ih =>
    by_cases hsmall : n < 10
    · refine ⟨n.digitChar, [], Nat.toDigits_of_lt_base hsmall, fun h => ?_⟩
      have hval := Nat.toNat_digitChar_of_lt_ten hsmall
      rw [h] at hval
      have hzero : ('0' : Char).toNat = 48 := rfl
      omega
    · obtain ⟨d, ds, hds, hd⟩ := ih (n / 10) (by omega) (by omega)
      refine ⟨d, ds ++ [(n % 10).digitChar], ?_, hd⟩
      rw [Nat.toDigits_of_base_le (by decide) (by omega), hds, List.cons_append]

/-- A run of digits is what is left of it without the zeros at its end, and these zeros. -/
theorem exists_eq_dropTrailingZeros_append (ds : List Char) :
    ∃ k, ds = Double.dropTrailingZeros ds ++ Double.zeros k := by
  refine ⟨(ds.reverse.takeWhile (· = '0')).length, ?_⟩
  have hzeros : ds.reverse.takeWhile (· = '0') =
      Double.zeros (ds.reverse.takeWhile (· = '0')).length := by
    refine List.eq_replicate_of_mem fun c hc => ?_
    simpa using List.all_eq_true.1 List.all_takeWhile c hc
  have hsplit : ds = (ds.reverse.dropWhile (· = '0')).reverse ++
      (ds.reverse.takeWhile (· = '0')).reverse := by
    rw [← List.reverse_append, List.takeWhile_append_dropWhile, List.reverse_reverse]
  have hreverse : (ds.reverse.takeWhile (· = '0')).reverse =
      Double.zeros (ds.reverse.takeWhile (· = '0')).length := by
    conv_lhs => rw [hzeros, Double.zeros, List.reverse_replicate]
    rfl
  rw [← hreverse]
  exact hsplit

/-- The digits of a positive number without the zeros at their end begin with a digit that
is no zero. -/
theorem exists_dropTrailingZeros_toDigits {n : Nat} (hn : 0 < n) :
    ∃ d ds k, Double.dropTrailingZeros (Nat.toDigits 10 n) = d :: ds ∧ d ≠ '0' ∧
      (∀ c ∈ d :: ds, isDigit c = true) ∧ (Nat.toDigits 10 n).length = (d :: ds).length + k ∧
      n = digitsValue (d :: ds) * 10 ^ k := by
  obtain ⟨first, rest, hdigits, hfirst⟩ := exists_toDigits_eq_cons hn
  obtain ⟨k, hk⟩ := exists_eq_dropTrailingZeros_append (Nat.toDigits 10 n)
  have hvalue : n = digitsValue (Double.dropTrailingZeros (Nat.toDigits 10 n)) * 10 ^ k := by
    rw [← digitsValue_append_zeros, ← hk, digitsValue_toDigits]
  cases hdrop : Double.dropTrailingZeros (Nat.toDigits 10 n) with
  | nil =>
    rw [hdrop] at hvalue
    rw [hvalue, digitsValue, List.foldl_nil, Nat.zero_mul] at hn
    exact absurd hn (Nat.lt_irrefl 0)
  | cons d ds =>
    rw [hdrop] at hvalue hk
    have hd : first = d := by
      rw [hdigits, List.cons_append] at hk
      exact (List.cons.inj hk).1
    refine ⟨d, ds, k, rfl, hd ▸ hfirst, fun c hc => ?_, ?_, hvalue⟩
    · exact isDigit_of_mem_toDigits (hk ▸ List.mem_append_left _ hc)
    · rw [hk, List.length_append, Double.zeros, List.length_replicate]

end BlockRobot
