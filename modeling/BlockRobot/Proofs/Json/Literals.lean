import BlockRobot.Proofs.Json.Numbers
import BlockRobot.Text.Blank

/-!
# Numbers and what they are spelled by

Numbers are read in two ways, by two grammars.  The reader of a JSON text says exactly where a
digit must stand, and keeps an integer apart if 64 bits hold it.  A learner who types a number
into a text field may leave more out and may put blanks around it, and always gets a double.

The two agree wherever both read something.  What lies between them is the layout of a numeral
(`Numeral.LaidOut`): a sign, digits, a point with digits behind it, and a power of ten.

* What is laid out so is read from a text field (`Numeral.ofText?_of_laidOut`).
* Whatever a JSON text has a number for is laid out so, and the number and the numeral are rounded
  to one double, which is finite (`Token.numeralFirst_startingWith`).  For an integer this
  says that rounding it when it is used gives what rounding its digits would have given.
* A JSON text that consists of one number is the numeral with blanks around it, and these are
  blanks for the text field too, which has more of them (`Token.exists_numeral_of_listWithin`).
-/

namespace BlockRobot

namespace Numeral

/-! ## The layout of a numeral -/

/-- A sign, or none. -/
inductive Sign : List Char → Bool → Prop
  | absent : Sign [] false
  | plus : Sign ['+'] false
  | minus : Sign ['-'] true

/-- A point and digits behind it, or nothing. -/
inductive Point : List Char → List Char → Prop
  | absent : Point [] []
  | present {fraction : List Char} (hdigits : ∀ c ∈ fraction, isDigit c = true) :
      Point ('.' :: fraction) fraction

/-- A power of ten, or nothing. -/
inductive Power : List Char → Int → Prop
  | absent : Power [] 0
  | present {mark d : Char} {sign ds : List Char} {down : Bool} (hmark : mark = 'e' ∨ mark = 'E')
      (hsign : Sign sign down) (hdigits : ∀ c ∈ d :: ds, isDigit c = true) :
      Power (mark :: (sign ++ d :: ds))
        (if down then -(digitsValue (d :: ds) : Int) else digitsValue (d :: ds))

/-- The text of a numeral that has a digit before the point. -/
inductive LaidOut : List Char → Numeral → Prop
  | mk {sign whole point fraction power : List Char} {negative : Bool} {d : Char} {e : Int}
      (hsign : Sign sign negative) (hdigits : ∀ c ∈ d :: whole, isDigit c = true)
      (hpoint : Point point fraction) (hpower : Power power e) :
      LaidOut (sign ++ (d :: whole ++ (point ++ power)))
        (.ofParts negative (d :: whole) fraction e)

/-! ## Reading from a text field -/

theorem spanSign_append {sign : List Char} {negative : Bool} (hsign : Sign sign negative) {d : Char}
    (hd : isDigit d = true) (ds : List Char) :
    spanSign (sign ++ d :: ds) = (negative, d :: ds) := by
  cases hsign with
  | absent =>
    rw [List.nil_append, spanSign.eq_def]
    split
    · rename_i heq
      exact absurd (List.cons.inj heq).1 (ne_of_isDigit hd rfl)
    · rename_i heq
      exact absurd (List.cons.inj heq).1 (ne_of_isDigit hd rfl)
    · rfl
  | plus => rfl
  | minus => rfl

theorem exists_sign (cs : List Char) :
    ∃ sign, cs = sign ++ (spanSign cs).2 ∧ Sign sign (spanSign cs).1 := by
  rw [spanSign.eq_def]
  split
  · exact ⟨['-'], rfl, .minus⟩
  · exact ⟨['+'], rfl, .plus⟩
  · exact ⟨[], rfl, .absent⟩

theorem exponentOfText?_of_power {cs : List Char} {e : Int} (h : Power cs e) :
    exponentOfText? cs = some e := by
  cases h with
  | absent => rfl
  | @present mark d sign ds down hmark hsign hdigits =>
    have hspan : spanDigits (d :: ds) = (d :: ds, []) := by
      have hall := @spanDigits_append (d :: ds) [] hdigits nofun
      rwa [List.append_nil] at hall
    rw [exponentOfText?, if_pos hmark, spanSign_append hsign (hdigits d (List.mem_cons_self ..))]
    dsimp only
    rw [hspan]
    rfl

theorem Power.not_isDigit_head {cs : List Char} {e : Int} (h : Power cs e) :
    ∀ c ∈ cs.head?, isDigit c = false := by
  cases h with
  | absent => simp
  | present hmark _ _ => rcases hmark with rfl | rfl <;> simp <;> decide

/-- **What is laid out as a numeral is read as one from a text field.** -/
theorem ofText?_of_laidOut {cs : List Char} {k : Numeral} (h : LaidOut cs k) :
    ofText? cs = some k := by
  cases h with
  | @mk sign whole point fraction power negative d e hsign hdigits hpoint hpower =>
    have hd := hdigits d (List.mem_cons_self ..)
    have hexponent := exponentOfText?_of_power hpower
    have hhead : ∀ c ∈ (point ++ power).head?, isDigit c = false := by
      cases hpoint with
      | absent => exact hpower.not_isDigit_head
      | present _ => simp; decide
    have hwhole : spanDigits (d :: (whole ++ (point ++ power))) = (d :: whole, point ++ power) :=
      spanDigits_append hdigits hhead
    rw [ofText?, List.cons_append, spanSign_append hsign hd]
    dsimp only
    rw [hwhole]
    cases hpoint with
    | absent =>
      cases hpower with
      | absent => rfl
      | present hmark _ _ =>
        rcases hmark with rfl | rfl <;> exact congrArg (Option.map _) hexponent
    | present hfraction =>
      have hbehind : spanDigits (fraction ++ power) = (fraction, power) :=
        spanDigits_append hfraction hpower.not_isDigit_head
      simp only [List.cons_append, hbehind]
      exact congrArg (Option.map _) hexponent

/-! ## No blanks within a numeral -/

theorem not_isBlank_of_isDigit {c : Char} (hc : isDigit c = true) : isBlank c = false := by
  have hbounds : 48 ≤ c.toNat ∧ c.toNat ≤ 57 := by
    rw [isDigit, Bool.and_eq_true, decide_eq_true_eq, decide_eq_true_eq] at hc
    exact hc
  rw [isBlank, List.contains_eq_mem, decide_eq_false_iff_not]
  intro hmem
  simp only [blankCodes, List.mem_cons, List.not_mem_nil, or_false] at hmem
  omega

theorem Sign.not_isBlank {cs : List Char} {negative : Bool} (h : Sign cs negative) :
    ∀ c ∈ cs, isBlank c = false := by
  cases h with
  | absent => nofun
  | plus => exact List.forall_mem_singleton.2 (by decide)
  | minus => exact List.forall_mem_singleton.2 (by decide)

theorem Point.not_isBlank {cs fraction : List Char} (h : Point cs fraction) :
    ∀ c ∈ cs, isBlank c = false := by
  cases h with
  | absent => nofun
  | present hdigits =>
    exact List.forall_mem_cons.2 ⟨by decide, fun c hc => not_isBlank_of_isDigit (hdigits c hc)⟩

theorem Power.not_isBlank {cs : List Char} {e : Int} (h : Power cs e) :
    ∀ c ∈ cs, isBlank c = false := by
  cases h with
  | absent => nofun
  | present hmark hsign hdigits =>
    refine List.forall_mem_cons.2 ⟨by rcases hmark with rfl | rfl <;> decide, ?_⟩
    exact List.forall_mem_append.2
      ⟨hsign.not_isBlank, fun c hc => not_isBlank_of_isDigit (hdigits c hc)⟩

theorem LaidOut.not_isBlank {cs : List Char} {k : Numeral} (h : LaidOut cs k) :
    ∀ c ∈ cs, isBlank c = false := by
  cases h with
  | mk hsign hdigits hpoint hpower =>
    refine List.forall_mem_append.2 ⟨hsign.not_isBlank, List.forall_mem_append.2 ⟨?_, ?_⟩⟩
    · exact fun c hc => not_isBlank_of_isDigit (hdigits c hc)
    · exact List.forall_mem_append.2 ⟨hpoint.not_isBlank, hpower.not_isBlank⟩

theorem LaidOut.ne_nil {cs : List Char} {k : Numeral} (h : LaidOut cs k) : cs ≠ [] := by
  cases h with
  | mk hsign hdigits hpoint hpower => simp

/-- A number is what a numeral is read as: both stand for one double, which is finite. -/
structure ReadAs (k : Numeral) (n : Number) : Prop where
  isFinite : k.toDouble.isFinite = true
  toDouble_eq : n.toDouble = k.toDouble

/-- **A numeral is read from a text field as the number it is read as elsewhere**, with or without
blanks around it. -/
theorem ReadAs.ofText?_trimBlanks {cs before after : List Char} {k : Numeral} {n : Number}
    (hread : k.ReadAs n) (hcs : LaidOut cs k) (hbefore : ∀ c ∈ before, isBlank c = true)
    (hafter : ∀ c ∈ after, isBlank c = true) :
    Double.ofText? (trimBlanks (before ++ cs ++ after)) = some n.toDouble := by
  rw [trimBlanks_append hbefore hafter hcs.ne_nil hcs.not_isBlank, Double.ofText?,
    ofText?_of_laidOut hcs]
  dsimp only
  rw [if_pos hread.isFinite, hread.toDouble_eq]

end Numeral

namespace Token

/-! ## Numbers of a JSON text -/

theorem readAs_of_doubleScalar {k : Numeral} {n : Number} (h : doubleScalar k = .number n) :
    k.ReadAs n := by
  rw [doubleScalar] at h
  split at h
  · rename_i hfinite
    cases h
    exact ⟨hfinite, rfl⟩
  · cases h

/-- The double of a numeral of digits only is the double closest to their value. -/
theorem toDouble_ofParts_whole (negative : Bool) (whole : List Char) :
    (Numeral.ofParts negative whole [] 0).toDouble =
      Double.nearest negative (digitsValue whole) 1 := by
  rw [Numeral.toDouble_eq, Numeral.ofParts, List.append_nil]
  exact congrArg (fun num => Double.nearest negative num 1) (Nat.mul_one _)

/-- An integer is rounded to the double that its digits are rounded to. -/
theorem readAs_integer {negative : Bool} {whole : List Char} {i : Int}
    (hi : -2 ^ 63 ≤ i ∧ i < 2 ^ 64) (hsign : decide (i < 0) = negative)
    (hdigits : i.natAbs = digitsValue whole) :
    (Numeral.ofParts negative whole [] 0).ReadAs (.integer i) := by
  have hdouble : Double.ofInt i = (Numeral.ofParts negative whole [] 0).toDouble := by
    rw [toDouble_ofParts_whole, Double.ofInt, hsign, hdigits]
  exact ⟨hdouble ▸ Double.isFinite_ofInt hi, hdouble⟩

theorem readAs_of_wholeScalar {negative : Bool} {whole : List Char} {n : Number}
    (h : wholeScalar negative whole = .number n) :
    (Numeral.ofParts negative whole [] 0).ReadAs n := by
  rw [wholeScalar] at h
  split at h
  · rename_i hnegative
    rw [hnegative]
    split at h
    · rename_i hbounds
      cases h
      exact readAs_integer (by omega) (decide_eq_true (by omega)) (by omega)
    · exact readAs_of_doubleScalar h
  · rename_i hnegative
    rw [Bool.not_eq_true] at hnegative
    rw [hnegative]
    split at h
    · cases h
      exact readAs_integer (by omega) (decide_eq_false (by omega)) (by omega)
    · exact readAs_of_doubleScalar h

/-! ### Going along a number -/

theorem digitDue_ne_number (cs : List Char) (n : Number) : (digitDue cs).1 ≠ .number n := by
  cases cs <;> exact nofun

/-- Behind the mark there is the rest of a power of ten. -/
theorem exists_power {negative : Bool} {whole fraction cs rest : List Char} {n : Number}
    (h : exponentPart negative whole fraction cs = (.number n, rest)) {mark : Char}
    (hmark : isExponentMark mark = true) :
    ∃ power e, mark :: cs = power ++ rest ∧ Numeral.Power power e ∧
      (Numeral.ofParts negative whole fraction e).ReadAs n := by
  obtain ⟨sign, hcs, hsign⟩ := Numeral.exists_sign cs
  rw [isExponentMark, Bool.or_eq_true, decide_eq_true_eq, decide_eq_true_eq] at hmark
  unfold exponentPart at h
  dsimp only at h
  split at h
  · exact absurd (congrArg Prod.fst h) (digitDue_ne_number _ n)
  · rename_i ds behind hne hspan
    obtain ⟨hdigits, hall, -⟩ := eq_append_of_spanDigits hspan
    obtain ⟨hscalar, rfl⟩ := Prod.mk.inj h
    cases ds with
    | nil => exact absurd rfl hne
    | cons d ds =>
      refine ⟨mark :: (sign ++ d :: ds), _, ?_, .present hmark hsign hall,
        readAs_of_doubleScalar hscalar⟩
      rw [hcs, hdigits]
      simp

/-- Behind the point there are digits, and then nothing more of the numeral. -/
theorem exists_point {negative : Bool} {whole digits cs rest : List Char} {n : Number}
    (hall : ∀ c ∈ digits, isDigit c = true)
    (h : (doubleScalar (.ofParts negative whole digits 0), cs) = (.number n, rest)) :
    ∃ point fraction power e, '.' :: (digits ++ cs) = point ++ power ++ rest ∧
      Numeral.Point point fraction ∧ Numeral.Power power e ∧
      (Numeral.ofParts negative whole fraction e).ReadAs n := by
  obtain ⟨hscalar, rfl⟩ := Prod.mk.inj h
  refine ⟨'.' :: digits, digits, [], 0, ?_, .present hall, .absent,
    readAs_of_doubleScalar hscalar⟩
  rw [List.append_nil, List.cons_append]

/-- Behind the digits before the point there is the rest of a numeral. -/
theorem exists_point_power {negative : Bool} {whole cs rest : List Char} {n : Number}
    (h : afterWhole negative whole cs = (.number n, rest)) :
    ∃ point fraction power e, cs = point ++ power ++ rest ∧ Numeral.Point point fraction ∧
      Numeral.Power power e ∧ (Numeral.ofParts negative whole fraction e).ReadAs n := by
  cases cs with
  | nil =>
    obtain ⟨hscalar, rfl⟩ := Prod.mk.inj h
    exact ⟨[], [], [], 0, rfl, .absent, .absent, readAs_of_wholeScalar hscalar⟩
  | cons c cs =>
    rw [afterWhole] at h
    split at h
    · rename_i hpoint
      subst hpoint
      split at h
      · exact absurd (congrArg Prod.fst h) (digitDue_ne_number _ n)
      · rename_i fraction _ hspan
        obtain ⟨rfl, hall, -⟩ := eq_append_of_spanDigits hspan
        exact exists_point hall h
      · rename_i fraction c cs _ hspan
        obtain ⟨rfl, hall, -⟩ := eq_append_of_spanDigits hspan
        split at h
        · rename_i hmark
          obtain ⟨power, e, hpower, hlaid, hread⟩ := exists_power h hmark
          refine ⟨'.' :: fraction, fraction, power, e, ?_, .present hall, hlaid, hread⟩
          rw [hpower, List.append_assoc, List.cons_append]
        · exact exists_point hall h
    · split at h
      · rename_i hmark
        obtain ⟨power, e, hpower, hlaid, hread⟩ := exists_power h hmark
        exact ⟨[], [], power, e, hpower, .absent, hlaid, hread⟩
      · obtain ⟨hscalar, rfl⟩ := Prod.mk.inj h
        exact ⟨[], [], [], 0, rfl, .absent, .absent, readAs_of_wholeScalar hscalar⟩

/-- The text of a number behind its sign. -/
theorem exists_numeral_of_afterWhole {negative : Bool} {whole cs rest : List Char} {n : Number}
    (hwhole : whole ≠ []) (hdigits : ∀ c ∈ whole, isDigit c = true)
    (h : afterWhole negative whole cs = (.number n, rest)) {sign : List Char}
    (hsign : Numeral.Sign sign negative) :
    ∃ text k, sign ++ (whole ++ cs) = text ++ rest ∧ Numeral.LaidOut text k ∧ k.ReadAs n := by
  obtain ⟨point, fraction, power, e, rfl, hpoint, hpower, hread⟩ := exists_point_power h
  obtain ⟨d, ds, rfl⟩ := List.exists_cons_of_ne_nil hwhole
  exact ⟨_, _, by simp, .mk hsign hdigits hpoint hpower, hread⟩

theorem exists_numeral_of_number {negative : Bool} {cs rest : List Char} {n : Number}
    (h : number negative cs = (.number n, rest)) {sign : List Char}
    (hsign : Numeral.Sign sign negative) :
    ∃ text k, sign ++ cs = text ++ rest ∧ Numeral.LaidOut text k ∧ k.ReadAs n := by
  unfold number at h
  split at h
  · exact absurd (congrArg Prod.fst h) (digitDue_ne_number _ n)
  · rename_i hspan
    obtain ⟨rfl, hall, -⟩ := eq_append_of_spanDigits hspan
    exact exists_numeral_of_afterWhole (List.cons_ne_nil _ _) hall h hsign
  · cases h
  · rename_i whole behind hne _ _ hspan
    obtain ⟨rfl, hall, -⟩ := eq_append_of_spanDigits hspan
    refine exists_numeral_of_afterWhole ?_ hall h hsign
    rintro rfl
    exact hne rfl

/-! ### Numbers among the tokens -/

/-- If a token is a number, it is read from a numeral in front of the rest. -/
def NumeralFirst (cs : List Char) (found : Token × List Char) : Prop :=
  ∀ n, found.1 = .scalar (.number n) →
    ∃ text k, cs = text ++ found.2 ∧ Numeral.LaidOut text k ∧ k.ReadAs n

theorem NumeralFirst.ite {cs : List Char} {p : Prop} [Decidable p] {found other : Token × List Char}
    (hfound : p → NumeralFirst cs found) (hother : NumeralFirst cs other) :
    NumeralFirst cs (if p then found else other) := by
  split
  · exact hfound ‹p›
  · exact hother

theorem word_ne_number {value : Scalar} {n : Number} (hvalue : value ≠ .number n)
    (due cs : List Char) : (word value due cs).1 ≠ .number n := by
  induction due generalizing cs with
  | nil => exact hvalue
  | cons d due ih =>
    cases cs with
    | nil => exact nofun
    | cons c cs =>
      rw [word]
      split
      · exact ih cs
      · exact nofun

theorem quoted_ne_number (cs : List Char) (n : Number) : (quoted cs).1 ≠ .number n := by
  unfold quoted
  dsimp only
  split <;> exact nofun

theorem numeralFirst_of_ne {cs rest : List Char} {s : Scalar} (h : ∀ n, s ≠ .number n) :
    NumeralFirst cs (.scalar s, rest) :=
  fun n hn => absurd (Token.scalar.inj hn) (h n)

theorem numeralFirst_of_number {negative : Bool} {sign cs : List Char}
    (hsign : Numeral.Sign sign negative) :
    NumeralFirst (sign ++ cs) (.scalar (number negative cs).1, (number negative cs).2) :=
  fun _ hn => exists_numeral_of_number (Prod.ext (Token.scalar.inj hn) rfl) hsign

/-- **What is read as a number is laid out as a numeral**, and both stand for one double. -/
theorem numeralFirst_startingWith (c : Char) (cs : List Char) :
    NumeralFirst (c :: cs) (startingWith c cs) := by
  have hword : ∀ {value : Scalar} (due : List Char), (∀ n, value ≠ .number n) →
      NumeralFirst (c :: cs) (.scalar (word value due cs).1, (word value due cs).2) :=
    fun due hvalue => numeralFirst_of_ne fun n => word_ne_number (hvalue n) due cs
  -- the brackets and marks first, then the scalars in the order of their first characters
  refine .ite (fun _ => nofun) <| .ite (fun _ => nofun) <| .ite (fun _ => nofun) <|
    .ite (fun _ => nofun) <| .ite (fun _ => nofun) <| .ite (fun _ => nofun) ?_
  refine .ite (fun _ => numeralFirst_of_ne (quoted_ne_number cs)) <| .ite ?_ <|
    .ite (fun _ => numeralFirst_of_number .absent) <| .ite (fun _ => hword _ nofun) <|
    .ite (fun _ => hword _ nofun) <| .ite (fun _ => hword _ nofun) nofun
  rintro rfl
  exact numeralFirst_of_number .minus

/-! ## Texts that consist of one number -/

theorem isBlank_of_isSpace {c : Char} (hc : isSpace c = true) : isBlank c = true := by
  refine isBlank_of_isWhitespace ?_
  simp only [isSpace, Bool.or_eq_true, decide_eq_true_eq] at hc
  rcases hc with ((rfl | rfl) | rfl) | rfl <;> rfl

/-- A text without tokens is blank. -/
theorem isBlank_of_listWithin_eq_nil {bound : Nat} {cs : List Char} (hbound : cs.length ≤ bound)
    (h : listWithin bound cs = []) : ∀ c ∈ cs, isBlank c = true := by
  induction bound generalizing cs with
  | zero =>
    rw [List.length_eq_zero_iff.1 (Nat.le_zero.1 hbound)]
    exact nofun
  | succ bound ih =>
    cases cs with
    | nil => exact nofun
    | cons c cs =>
      rw [listWithin] at h
      split at h
      · rename_i hspace
        exact List.forall_mem_cons.2
          ⟨isBlank_of_isSpace hspace, ih (Nat.le_of_succ_le_succ hbound) h⟩
      · cases h

/-- **A text whose only token is a number is a numeral with blanks around it.** -/
theorem exists_numeral_of_listWithin {bound : Nat} {cs : List Char} {n : Number}
    (hbound : cs.length ≤ bound) (h : listWithin bound cs = [.scalar (.number n)]) :
    ∃ before text after k, cs = before ++ text ++ after ∧ (∀ c ∈ before, isBlank c = true) ∧
      (∀ c ∈ after, isBlank c = true) ∧ Numeral.LaidOut text k ∧ k.ReadAs n := by
  induction bound generalizing cs with
  | zero => cases h
  | succ bound ih =>
    cases cs with
    | nil => cases h
    | cons c cs =>
      have hlength : cs.length ≤ bound := Nat.le_of_succ_le_succ hbound
      rw [listWithin] at h
      split at h
      · rename_i hspace
        obtain ⟨before, text, after, k, rfl, hbefore, hafter, hlaid, hread⟩ := ih hlength h
        exact ⟨c :: before, text, after, k, rfl,
          List.forall_mem_cons.2 ⟨isBlank_of_isSpace hspace, hbefore⟩, hafter, hlaid, hread⟩
      · obtain ⟨htoken, hrest⟩ := List.cons.inj h
        obtain ⟨text, k, hcs, hlaid, hread⟩ := numeralFirst_startingWith c cs n htoken
        refine ⟨[], text, _, k, hcs, nofun, ?_, hlaid, hread⟩
        refine isBlank_of_listWithin_eq_nil ?_ hrest
        -- the numeral takes at least the first character
        have htext := List.length_pos_iff.2 hlaid.ne_nil
        have htotal := congrArg List.length hcs
        rw [List.length_cons, List.length_append] at htotal
        omega

end Token

end BlockRobot
