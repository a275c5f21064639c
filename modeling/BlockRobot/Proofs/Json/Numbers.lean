import BlockRobot.Json.Token
import BlockRobot.Proofs.Double.Shortest

/-!
# Numbers read as they were written

A number in a text is read up to the first character that cannot belong to it, and what is
written behind a number, a comma, a closing bracket or nothing at all, is of that sort
(`Stops`).

* An integer of 64 bits is written by its digits and read back (`Token.leads_integer`).
* A finite double is laid out in one of four ways, and however it is, the digits and the
  power of ten that are read name the same value as those that were written
  (`number_layout`).  Since these read back, so does the text (`Token.leads_double`).
-/

namespace BlockRobot

/-- What stands behind a number and cannot be a part of it. -/
def Stops (rest : List Char) : Prop :=
  ∀ c ∈ rest.head?, isDigit c = false ∧ c ≠ '.' ∧ Token.isExponentMark c = false

theorem Stops.not_isDigit {rest : List Char} (h : Stops rest) :
    ∀ c ∈ rest.head?, isDigit c = false := fun c hc => (h c hc).1

theorem stops_nil : Stops [] := fun c hc => by simp at hc

theorem stops_cons {c : Char} (hc : c = ',' ∨ c = ']' ∨ c = '\x7d') (rest : List Char) :
    Stops (c :: rest) := by
  intro x hx
  obtain rfl : c = x := by simpa using hx
  rcases hc with rfl | rfl | rfl <;> decide

namespace Token

/-- The value of a number depends on the double it stands for alone. -/
theorem doubleScalar_congr {m n : Numeral} (h : m.toDouble = n.toDouble) :
    doubleScalar m = doubleScalar n := by
  rw [doubleScalar, doubleScalar, h]

theorem doubleScalar_of_isFinite {n : Numeral} {d : Double} (h : n.toDouble = d)
    (hd : d.isFinite = true) : doubleScalar n = .number (.double d) := by
  rw [doubleScalar, h, if_pos hd]

/-! ## The parts of a number -/

theorem number_zero (negative : Bool) {rest : List Char}
    (hrest : ∀ c ∈ rest.head?, isDigit c = false) :
    number negative ('0' :: rest) = afterWhole negative ['0'] rest := by
  have hspan : spanDigits ('0' :: rest) = (['0'], rest) :=
    @spanDigits_append ['0'] rest isDigit_of_mem_zero hrest
  rw [number, hspan]
  rfl

theorem number_digits (negative : Bool) {d : Char} {ds rest : List Char} (hd : d ≠ '0')
    (hds : ∀ c ∈ d :: ds, isDigit c = true) (hrest : ∀ c ∈ rest.head?, isDigit c = false) :
    number negative (d :: ds ++ rest) = afterWhole negative (d :: ds) rest := by
  have hspan : spanDigits (d :: ds ++ rest) = (d :: ds, rest) := spanDigits_append hds hrest
  rw [number, hspan]
  split
  · rename_i heq
    cases heq
  · rename_i heq
    obtain ⟨rfl, -⟩ := List.cons.inj (Prod.mk.inj heq).1
    exact absurd rfl hd
  · rename_i heq
    obtain ⟨rfl, -⟩ := List.cons.inj (Prod.mk.inj heq).1
    exact absurd rfl hd
  · rename_i heq
    obtain ⟨rfl, rfl⟩ := Prod.mk.inj heq
    rfl

theorem afterWhole_of_stops (negative : Bool) (whole : List Char) {rest : List Char}
    (hrest : Stops rest) : afterWhole negative whole rest = (wholeScalar negative whole, rest) := by
  cases rest with
  | nil => rfl
  | cons c rest =>
    obtain ⟨-, hpoint, hmark⟩ := hrest c rfl
    rw [afterWhole, if_neg hpoint, hmark]
    rfl

theorem afterWhole_point (negative : Bool) (whole : List Char) {d : Char}
    {ds rest : List Char} (hds : ∀ c ∈ d :: ds, isDigit c = true) (hrest : Stops rest) :
    afterWhole negative whole ('.' :: (d :: ds ++ rest)) =
      (doubleScalar (.ofParts negative whole (d :: ds) 0), rest) := by
  have hspan : spanDigits (d :: ds ++ rest) = (d :: ds, rest) :=
    spanDigits_append hds hrest.not_isDigit
  rw [afterWhole, if_pos rfl, hspan]
  cases rest with
  | nil => rfl
  | cons c rest =>
    obtain ⟨-, -, hmark⟩ := hrest c rfl
    dsimp only
    rw [hmark]
    rfl

theorem afterWhole_point_mark (negative : Bool) (whole : List Char) {d : Char}
    {ds cs : List Char} (hds : ∀ c ∈ d :: ds, isDigit c = true) :
    afterWhole negative whole ('.' :: (d :: ds ++ 'e' :: cs)) =
      exponentPart negative whole (d :: ds) cs := by
  have hspan : spanDigits (d :: ds ++ 'e' :: cs) = (d :: ds, 'e' :: cs) :=
    spanDigits_append hds (by simp [isDigit])
  rw [afterWhole, if_pos rfl, hspan]
  rfl

theorem afterWhole_mark (negative : Bool) (whole cs : List Char) :
    afterWhole negative whole ('e' :: cs) = exponentPart negative whole [] cs := rfl

theorem exponentPart_signedDigits (negative : Bool) (whole fraction : List Char) (e : Int)
    {rest : List Char} (hrest : Stops rest) :
    exponentPart negative whole fraction (Double.signedDigits e ++ rest) =
      (doubleScalar (.ofParts negative whole fraction e), rest) := by
  have hsign : spanSign (Double.signedDigits e ++ rest) =
      (decide (e < 0), Nat.toDigits 10 e.natAbs ++ rest) := by
    rw [Double.signedDigits]
    by_cases he : e < 0
    · rw [if_pos he, decide_eq_true he]
      rfl
    · rw [if_neg he, decide_eq_false he]
      rfl
  have hspan : spanDigits (Nat.toDigits 10 e.natAbs ++ rest) = (Nat.toDigits 10 e.natAbs, rest) :=
    spanDigits_append (fun c hc => isDigit_of_mem_toDigits hc) hrest.not_isDigit
  have hexponent : (if decide (e < 0) = true then -((e.natAbs : Nat) : Int) else (e.natAbs : Nat)) =
      e := by
    split <;> rename_i he
    · have := of_decide_eq_true he
      omega
    · have := of_decide_eq_false (Bool.not_eq_true _ ▸ he)
      omega
  rw [exponentPart, hsign]
  dsimp only
  rw [hspan]
  cases hdigits : Nat.toDigits 10 e.natAbs with
  | nil => exact absurd hdigits Nat.toDigits_ne_nil
  | cons d ds =>
    dsimp only
    rw [← hdigits, digitsValue_toDigits, hexponent]

/-! ## The four layouts of a double -/

section Layouts

variable (negative : Bool) {d : Char} {ds rest : List Char} (hd : d ≠ '0')
  (hds : ∀ c ∈ d :: ds, isDigit c = true) (hrest : Stops rest)

include hds hrest

/-- A point and zeros before all digits. -/
theorem number_below_one (k : Nat) :
    number negative ('0' :: '.' :: (Double.zeros k ++ (d :: ds) ++ rest)) =
      (doubleScalar ⟨negative, digitsValue (d :: ds), -(k + (ds.length + 1) : Nat)⟩, rest) := by
  have hall : ∀ c ∈ Double.zeros k ++ (d :: ds), isDigit c = true := by
    intro c hc
    rcases List.mem_append.1 hc with hc | hc
    · exact isDigit_of_mem_zeros hc
    · exact hds c hc
  have hvalue : digitsValue (['0'] ++ (Double.zeros k ++ (d :: ds))) = digitsValue (d :: ds) := by
    rw [← digitsValue_zeros_append (k + 1) (d :: ds)]
    rfl
  have hlength : (Double.zeros k ++ (d :: ds)).length = k + (ds.length + 1) := by
    simp [Double.zeros]
  rw [number_zero negative (by simp [isDigit])]
  cases hfraction : Double.zeros k ++ (d :: ds) with
  | nil => simp at hfraction
  | cons x xs =>
    rw [hfraction] at hall hvalue hlength
    rw [afterWhole_point negative _ hall hrest, Numeral.ofParts, hvalue, hlength, Int.zero_sub]

include hd

/-- One digit before the point, and a power of ten. -/
theorem number_scientific (e : Int) :
    number negative
        (d :: ((if ds.isEmpty then [] else '.' :: ds) ++ 'e' :: (Double.signedDigits e ++ rest))) =
      (doubleScalar ⟨negative, digitsValue (d :: ds), e - ds.length⟩, rest) := by
  have hfirst : ∀ c ∈ [d], isDigit c = true := by simpa using hds d (List.mem_cons_self ..)
  cases ds with
  | nil =>
    show number negative ([d] ++ 'e' :: (Double.signedDigits e ++ rest)) = _
    rw [number_digits negative hd hfirst (by simp [isDigit]), afterWhole_mark,
      exponentPart_signedDigits negative _ _ e hrest]
    rfl
  | cons c ds =>
    have hfraction : ∀ x ∈ c :: ds, isDigit x = true := fun x hx =>
      hds x (List.mem_cons_of_mem d hx)
    show number negative ([d] ++ '.' :: (c :: ds ++ 'e' :: (Double.signedDigits e ++ rest))) = _
    rw [number_digits negative hd hfirst (by simp [isDigit]),
      afterWhole_point_mark negative _ hfraction, exponentPart_signedDigits negative _ _ e hrest]
    rfl

/-- Zeros and a point behind all digits. -/
theorem number_whole (k : Nat) :
    number negative (d :: ds ++ Double.zeros k ++ '.' :: '0' :: rest) =
      (doubleScalar ⟨negative, digitsValue (d :: ds), k⟩, rest) := by
  have hall : ∀ c ∈ d :: (ds ++ Double.zeros k), isDigit c = true := by
    intro c hc
    rw [← List.cons_append] at hc
    rcases List.mem_append.1 hc with hc | hc
    · exact hds c hc
    · exact isDigit_of_mem_zeros hc
  have hvalue : digitsValue (d :: (ds ++ Double.zeros k) ++ ['0']) =
      digitsValue (d :: ds) * 10 ^ (k + 1) := by
    rw [← digitsValue_append_zeros, Double.zeros, Double.zeros, List.replicate_succ']
    simp
  have hread : number negative (d :: (ds ++ Double.zeros k) ++ '.' :: ('0' :: [] ++ rest)) = _ :=
    number_digits negative hd hall (by simp [isDigit])
  rw [afterWhole_point negative _ isDigit_of_mem_zero hrest, Numeral.ofParts, hvalue] at hread
  refine hread.trans (congrArg (fun s => (s, rest)) (doubleScalar_congr ?_))
  have hshift := Numeral.toDouble_mul_pow negative (digitsValue (d :: ds)) (k + 1) k
  have hexponent : (k : Int) - (k + 1 : Nat) = 0 - 1 := by omega
  rw [hexponent] at hshift
  exact hshift

/-- A point among the digits. -/
theorem number_amid {whole fraction : List Char} (hwhole : d :: ds = whole ++ fraction)
    (hw : whole ≠ []) (hf : fraction ≠ []) :
    number negative (whole ++ '.' :: (fraction ++ rest)) =
      (doubleScalar ⟨negative, digitsValue (d :: ds), -(fraction.length : Int)⟩, rest) := by
  obtain ⟨w, ws, rfl⟩ := List.exists_cons_of_ne_nil hw
  obtain ⟨f, fs, rfl⟩ := List.exists_cons_of_ne_nil hf
  obtain ⟨rfl, rfl⟩ := List.cons.inj hwhole
  have hws : ∀ c ∈ d :: ws, isDigit c = true := fun c hc =>
    hds c (List.mem_append_left (f :: fs) hc)
  have hfs : ∀ c ∈ f :: fs, isDigit c = true := fun c hc =>
    hds c (List.mem_append_right (d :: ws) hc)
  rw [number_digits negative hd hws (by simp [isDigit]), afterWhole_point negative _ hfs hrest,
    Numeral.ofParts, Int.zero_sub]
  rfl

end Layouts

/-- **However the digits of a double are laid out, what is read has their value.** -/
theorem number_layout (negative : Bool) {d : Char} {ds : List Char} (e : Int)
    {rest : List Char} (hd : d ≠ '0') (hds : ∀ c ∈ d :: ds, isDigit c = true)
    (hrest : Stops rest) :
    number negative (Double.layout (d :: ds) e ++ rest) =
      (doubleScalar ⟨negative, digitsValue (d :: ds), e - ds.length⟩, rest) := by
  rw [Double.layout]
  split
  · have hmark : (if e < 0 then '-' :: Nat.toDigits 10 e.natAbs else Double.signedDigits e) =
        Double.signedDigits e := by
      rw [Double.signedDigits]
      split <;> rfl
    rw [← number_scientific negative hd hds hrest e, hmark]
    cases ds <;> simp
  · split
    · have hexponent : e - ds.length = -((e.natAbs - 1 + (ds.length + 1) : Nat) : Int) := by omega
      rw [hexponent, ← number_below_one negative hds hrest]
      simp
    · dsimp only
      split
      · rename_i hlength
        rw [List.length_cons] at hlength
        have hexponent : e - ds.length = ((e.toNat + 1 - (ds.length + 1) : Nat) : Int) := by omega
        rw [hexponent, ← number_whole negative hd hds hrest]
        simp
      · rename_i hlength
        rw [List.length_cons] at hlength
        have hdrop : ((d :: ds).drop (e.toNat + 1)).length = ds.length - e.toNat := by simp
        have hexponent : e - ds.length =
            -(((d :: ds).drop (e.toNat + 1)).length : Int) := by omega
        rw [hexponent, ← number_amid negative hd hds hrest (List.take_append_drop ..).symm
          (by simp) (List.ne_nil_of_length_pos (by omega))]
        simp

/-! ## Numbers in a text -/

/-- A text that is not empty and begins with a token, with the rest behind it. -/
def Leads (token : Token) (cs rest : List Char) : Prop :=
  ∃ c tail, cs = c :: tail ∧ isSpace c = false ∧ startingWith c tail = (token, rest) ∧
    rest.length ≤ tail.length

theorem startingWith_minus (cs : List Char) :
    startingWith '-' cs = (.scalar (number true cs).1, (number true cs).2) := rfl

theorem startingWith_digit {d : Char} (hd : isDigit d = true) (cs : List Char) :
    startingWith d cs = (.scalar (number false (d :: cs)).1, (number false (d :: cs)).2) := by
  have hne : ∀ x, isDigit x = false → d ≠ x := fun _ => ne_of_isDigit hd
  rw [startingWith, if_neg (hne '[' rfl), if_neg (hne ']' rfl), if_neg (hne '\x7b' rfl),
    if_neg (hne '\x7d' rfl), if_neg (hne ',' rfl), if_neg (hne ':' rfl), if_neg (hne '"' rfl),
    if_neg (hne '-' rfl), if_pos hd]

theorem isSpace_of_isDigit {d : Char} (hd : isDigit d = true) : isSpace d = false := by
  have hne : ∀ x, isDigit x = false → d ≠ x := fun _ => ne_of_isDigit hd
  simp [isSpace, hne ' ' rfl, hne '\n' rfl, hne '\t' rfl, hne '\r' rfl]

/-- A text that begins with a digit begins with a number, and so does one with a sign. -/
theorem leads_number {negative : Bool} {d : Char} {ds rest : List Char} {s : Scalar}
    (hd : isDigit d = true) (h : number negative (d :: ds ++ rest) = (s, rest)) :
    Leads (.scalar s) ((if negative then ['-'] else []) ++ (d :: ds ++ rest)) rest := by
  cases negative with
  | true =>
    refine ⟨'-', d :: ds ++ rest, rfl, rfl, ?_, by simp; omega⟩
    rw [startingWith_minus, h]
  | false =>
    refine ⟨d, ds ++ rest, rfl, isSpace_of_isDigit hd, ?_, by simp⟩
    rw [startingWith_digit hd]
    exact congrArg (fun r : Scalar × List Char => (scalar r.1, r.2)) h

/-- The digits of a natural number are the digits before the point of a number. -/
theorem number_toDigits (negative : Bool) (n : Nat) {rest : List Char} (hrest : Stops rest) :
    number negative (Nat.toDigits 10 n ++ rest) =
      (wholeScalar negative (Nat.toDigits 10 n), rest) := by
  rcases Nat.eq_zero_or_pos n with rfl | hn
  · exact (number_zero negative hrest.not_isDigit).trans (afterWhole_of_stops negative _ hrest)
  · obtain ⟨d, ds, hdigits, hd⟩ := exists_toDigits_eq_cons hn
    have hds : ∀ c ∈ d :: ds, isDigit c = true := fun c hc => isDigit_of_mem_toDigits (hdigits ▸ hc)
    rw [hdigits, number_digits negative hd hds hrest.not_isDigit,
      afterWhole_of_stops negative _ hrest]

/-- What is read of the digits of an integer of 64 bits. -/
theorem wholeScalar_toDigits {i : Int} (hi : -2 ^ 63 ≤ i ∧ i < 2 ^ 64) :
    wholeScalar (decide (i < 0)) (Nat.toDigits 10 i.natAbs) = .number (.integer i) := by
  rw [wholeScalar, digitsValue_toDigits]
  by_cases hneg : i < 0
  · have hvalue : -(i.natAbs : Int) = i := by omega
    rw [if_pos (decide_eq_true hneg), if_pos ⟨by omega, by omega⟩, hvalue]
  · have hvalue : (i.natAbs : Int) = i := by omega
    rw [if_neg (by simpa using hneg), if_pos (by omega), hvalue]

/-- **An integer is read as it was written.** -/
theorem leads_integer {i : Int} (hi : -2 ^ 63 ≤ i ∧ i < 2 ^ 64) {rest : List Char}
    (hrest : Stops rest) :
    Leads (.scalar (.number (.integer i))) ((Number.integer i).render ++ rest) rest := by
  have hread := number_toDigits (decide (i < 0)) i.natAbs hrest
  rw [wholeScalar_toDigits hi] at hread
  cases hdigits : Nat.toDigits 10 i.natAbs with
  | nil => exact absurd hdigits Nat.toDigits_ne_nil
  | cons d ds =>
    have hd : isDigit d = true := isDigit_of_mem_toDigits (hdigits ▸ List.mem_cons_self ..)
    rw [hdigits] at hread
    have hleads := leads_number hd hread
    rw [Number.render, hdigits, List.append_assoc]
    by_cases hneg : i < 0
    · rw [if_pos hneg]
      rwa [if_pos (decide_eq_true hneg)] at hleads
    · rw [if_neg hneg]
      rwa [if_neg (by simpa using hneg)] at hleads

theorem exists_layout_eq_cons {d : Char} {ds : List Char} (hd : isDigit d = true) (e : Int) :
    ∃ x xs, Double.layout (d :: ds) e = x :: xs ∧ isDigit x = true := by
  rw [Double.layout]
  split
  · exact ⟨d, _, rfl, hd⟩
  · split
    · exact ⟨'0', _, rfl, rfl⟩
    · dsimp only
      split
      · exact ⟨d, _, rfl, hd⟩
      · exact ⟨d, _, rfl, hd⟩

/-- **A finite double is read as it was written.** -/
theorem leads_double {d : Double} (hd : d.isFinite = true) {rest : List Char}
    (hrest : Stops rest) :
    Leads (.scalar (.number (.double d))) ((Number.double d).render ++ rest) rest := by
  rw [Number.render, if_pos hd, Double.text, List.append_assoc]
  by_cases hunits : d.units = 0
  · have hdouble : (Numeral.ofParts d.negative ['0'] ['0'] 0).toDouble = d := by
      have hzero := Double.toDouble_zero d.negative (0 - 1)
      have hmagnitude := Double.magnitude_eq_zero hunits
      obtain ⟨negative, magnitude, hlt⟩ := d
      obtain rfl : magnitude = 0 := hmagnitude
      exact hzero
    have hread : number d.negative ('0' :: ['.', '0'] ++ rest) =
        (doubleScalar (.ofParts d.negative ['0'] ['0'] 0), rest) :=
      (number_zero d.negative (by simp [isDigit])).trans
        (afterWhole_point d.negative _ isDigit_of_mem_zero hrest)
    rw [doubleScalar_of_isFinite hdouble hd] at hread
    rw [if_pos hunits]
    exact leads_number rfl hread
  · obtain ⟨x, xs, k, hdrop, hx, hdigits, hlength, hvalue⟩ :=
      exists_dropTrailingZeros_toDigits (Double.shortest_pos hd hunits)
    rw [if_neg hunits, Double.decimalText, hdrop]
    set e : Int := d.shortest.2 + ((Nat.toDigits 10 d.shortest.1).length - 1) with he
    have hdouble :
        (Numeral.mk d.negative (digitsValue (x :: xs)) (e - xs.length)).toDouble = d := by
      have hexponent : e - xs.length = d.shortest.2 + k := by
        rw [he, hlength, List.length_cons]
        omega
      have hshift := Numeral.toDouble_mul_pow d.negative (digitsValue (x :: xs)) k
        (d.shortest.2 + k)
      rw [← hvalue, Int.add_sub_cancel, Double.toDouble_shortest hd] at hshift
      rw [hexponent, ← hshift]
    have hread := number_layout d.negative e hx hdigits hrest
    rw [doubleScalar_of_isFinite hdouble hd] at hread
    obtain ⟨y, ys, hlayout, hy⟩ := exists_layout_eq_cons (hdigits x (List.mem_cons_self ..)) e
    rw [hlayout] at hread ⊢
    exact leads_number hy hread

end Token

end BlockRobot
