/-!
# Quoted text

The two directions of writing a text between quotes.

*Writing* is `quote`: a quote and a backslash get a backslash, the control
characters below `0x20` get their short escape where there is one and `\u00xx`
where there is none, and everything else stands for itself.

*Reading* goes in two passes, because a reader that only skips a quoted text is
more lenient than one that wants to know it.  The first pass, `pieces`, takes the
escapes apart and finds the closing quote; it leaves a `\u` escape as a sixteen-bit
*unit*.  The second pass, `join`, puts units together: a high half of a surrogate
pair must be followed at once by a low half, and a low half may not stand alone.
Skipping stops after the first pass, so halves that stand alone are passed over.

What is written is read as it was: `pieces_flatMap_escape` for the first pass and
`join_map_pieceOf` for the second.
-/

namespace BlockRobot

/-- What can be wrong with a text: it ends too early, or a character stands where
it cannot. -/
inductive Fault where
  | cut
  | broken
deriving DecidableEq

namespace Quoted

/-- The hexadecimal digit for a number below sixteen. -/
def hexDigit (n : Nat) : Char := (Nat.toDigits 16 n).headD '0'

/-- A character as it is written between quotes. -/
def escape (c : Char) : List Char :=
  if c = '"' then ['\\', '"']
  else if c = '\\' then ['\\', '\\']
  else if c = '\x08' then ['\\', 'b']
  else if c = '\x0c' then ['\\', 'f']
  else if c = '\n' then ['\\', 'n']
  else if c = '\r' then ['\\', 'r']
  else if c = '\t' then ['\\', 't']
  else if c.toNat < 0x20 then ['\\', 'u', '0', '0', hexDigit (c.toNat / 16), hexDigit (c.toNat % 16)]
  else [c]

/-- A text between quotes. -/
def quote (cs : List Char) : List Char := '"' :: cs.flatMap escape ++ ['"']

/-! ## Taking escapes apart -/

/-- A part of a quoted text: a character, or the sixteen-bit unit of an escape. -/
inductive Piece where
  | plain (c : Char)
  | unit (n : Nat)
deriving DecidableEq

/-- How the first pass ends: after the closing quote, with what follows it, or at
a fault. -/
inductive Ending where
  | closed (rest : List Char)
  | fault (f : Fault)
deriving DecidableEq

/-- The value of a hexadecimal digit of either case. -/
def hexValue? (c : Char) : Option Nat :=
  if '0' ≤ c ∧ c ≤ '9' then some (c.toNat - 48)
  else if 'a' ≤ c ∧ c ≤ 'f' then some (c.toNat - 87)
  else if 'A' ≤ c ∧ c ≤ 'F' then some (c.toNat - 55)
  else none

/-- The number of four hexadecimal digits. -/
def unitOf? (a b c d : Char) : Option Nat := do
  let a ← hexValue? a
  let b ← hexValue? b
  let c ← hexValue? c
  let d ← hexValue? d
  some (((a * 16 + b) * 16 + c) * 16 + d)

/-- The character meant by a letter after a backslash. -/
def shortEscape? (c : Char) : Option Char :=
  if c = '"' then some '"'
  else if c = '\\' then some '\\'
  else if c = '/' then some '/'
  else if c = 'b' then some '\x08'
  else if c = 'f' then some '\x0c'
  else if c = 'n' then some '\n'
  else if c = 'r' then some '\r'
  else if c = 't' then some '\t'
  else none

/-- What is wrong where fewer than four characters follow `\u`: the text is cut if
not even four bytes are left of it, otherwise one of them is no digit. -/
def shortOfDigits (rest : List Char) : Fault :=
  if (String.ofList rest).utf8ByteSize < 4 then .cut else .broken

/-- The pieces of a text up to the closing quote, the opening one being past. -/
def pieces : List Char → List Piece × Ending
  | [] => ([], .fault .cut)
  | c :: cs =>
    if c = '"' then ([], .closed cs)
    else if c = '\\' then
      match cs with
      | [] => ([], .fault .cut)
      | e :: cs =>
        if e = 'u' then
          match cs with
          | a :: b :: c :: d :: cs =>
            match unitOf? a b c d with
            | some n =>
              let (ps, ending) := pieces cs
              (.unit n :: ps, ending)
            | none => ([], .fault .broken)
          | short => ([], .fault (shortOfDigits short))
        else
          match shortEscape? e with
          | some x =>
            let (ps, ending) := pieces cs
            (.plain x :: ps, ending)
          | none => ([], .fault .broken)
    else if c.toNat < 0x20 then ([], .fault .broken)
    else
      let (ps, ending) := pieces cs
      (.plain c :: ps, ending)

/-! ## Joining surrogate halves -/

/-- Whether a unit is the first half of a surrogate pair. -/
def isHigh (n : Nat) : Bool := 0xD800 ≤ n && n ≤ 0xDBFF

/-- Whether a unit is the second half of a surrogate pair. -/
def isLow (n : Nat) : Bool := 0xDC00 ≤ n && n ≤ 0xDFFF

/-- The character of a surrogate pair. -/
def paired (high low : Nat) : Char :=
  Char.ofNat (0x10000 + (high - 0xD800) * 0x400 + (low - 0xDC00))

/-- The fault a reader meets where the pieces end: none after the closing quote. -/
def Ending.fault? : Ending → Option Fault
  | .closed _ => none
  | .fault f => some f

/-- The characters of some pieces, or the first fault: a half that stands alone,
or what ended the pieces.  A high half at the very end is alone if the quote is
closed, and otherwise the reader meets what ended the pieces. -/
def join (ending : Ending) : List Piece → Except Fault (List Char)
  | [] =>
    match ending.fault? with
    | none => .ok []
    | some f => .error f
  | .plain c :: ps => (join ending ps).map (c :: ·)
  | .unit n :: ps =>
    if isLow n then .error .broken
    else if isHigh n then
      match ps with
      | [] => .error (ending.fault?.getD .broken)
      | .unit m :: ps =>
        if isLow m then (join ending ps).map (paired n m :: ·) else .error .broken
      | .plain _ :: _ => .error .broken
    else (join ending ps).map (Char.ofNat n :: ·)

example : String.ofList (quote "a\"\\\n\x01é/".toList) = "\"a\\\"\\\\\\n\\u0001é/\"" := by
  decide +kernel

example : join (.closed []) [.unit 0xD83D, .unit 0xDE00] = .ok ['😀'] := rfl

example : join (.closed []) [.unit 0xD83D, .plain 'a'] = .error .broken := rfl

/-! ## Reading what is written -/

theorem pieces_quote (cs : List Char) : pieces ('"' :: cs) = ([], .closed cs) := by
  rw [pieces.eq_def]; rfl

theorem pieces_plain {c : Char} (hq : c ≠ '"') (hb : c ≠ '\\') (hc : ¬c.toNat < 0x20)
    (cs : List Char) : pieces (c :: cs) = (.plain c :: (pieces cs).1, (pieces cs).2) := by
  rw [pieces.eq_def]; simp only [if_neg hq, if_neg hb, if_neg hc]

theorem pieces_short {e c : Char} (hu : e ≠ 'u') (h : shortEscape? e = some c) (cs : List Char) :
    pieces ('\\' :: e :: cs) = (.plain c :: (pieces cs).1, (pieces cs).2) := by
  rw [pieces.eq_def]
  simp [hu, h]

theorem pieces_unit {a b c d : Char} {n : Nat} (h : unitOf? a b c d = some n) (cs : List Char) :
    pieces ('\\' :: 'u' :: a :: b :: c :: d :: cs) =
      (.unit n :: (pieces cs).1, (pieces cs).2) := by
  rw [pieces.eq_def]
  simp [h]

theorem hexValue?_hexDigit {n : Nat} (h : n < 16) : hexValue? (hexDigit n) = some n := by
  have all : ∀ n : Fin 16, hexValue? (hexDigit n) = some n.val := by decide +kernel
  exact all ⟨n, h⟩

/-- What the first pass makes of a character as it is written. -/
def pieceOf (c : Char) : Piece :=
  if c.toNat < 0x20 ∧ c ≠ '\x08' ∧ c ≠ '\x0c' ∧ c ≠ '\n' ∧ c ≠ '\r' ∧ c ≠ '\t' then .unit c.toNat
  else .plain c

/-- The first pass takes a written character for one piece. -/
theorem pieces_escape_append (c : Char) (cs : List Char) :
    pieces (escape c ++ cs) = (pieceOf c :: (pieces cs).1, (pieces cs).2) := by
  by_cases hq : c = '"'
  · subst hq; exact pieces_short (by decide) rfl cs
  by_cases hb : c = '\\'
  · subst hb; exact pieces_short (by decide) rfl cs
  by_cases h08 : c = '\x08'
  · subst h08; exact pieces_short (by decide) rfl cs
  by_cases h0c : c = '\x0c'
  · subst h0c; exact pieces_short (by decide) rfl cs
  by_cases hn : c = '\n'
  · subst hn; exact pieces_short (by decide) rfl cs
  by_cases hr : c = '\r'
  · subst hr; exact pieces_short (by decide) rfl cs
  by_cases ht : c = '\t'
  · subst ht; exact pieces_short (by decide) rfl cs
  by_cases hc : c.toNat < 0x20
  · have hu : unitOf? '0' '0' (hexDigit (c.toNat / 16)) (hexDigit (c.toNat % 16)) =
        some c.toNat := by
      have h0 : hexValue? '0' = some 0 := rfl
      simp only [unitOf?, h0, hexValue?_hexDigit (show c.toNat / 16 < 16 by omega),
        hexValue?_hexDigit (show c.toNat % 16 < 16 by omega), Option.bind_eq_bind,
        Option.bind_some, Option.some.injEq]
      omega
    simp only [escape, pieceOf, hq, hb, h08, h0c, hn, hr, ht, hc, ne_eq, not_false_eq_true,
      and_self, if_true, if_false]
    exact pieces_unit hu cs
  · simp only [escape, pieceOf, hq, hb, h08, h0c, hn, hr, ht, hc, false_and, if_false]
    exact pieces_plain hq hb hc cs

/-- The first pass takes a quoted text apart character by character. -/
theorem pieces_flatMap_escape (cs rest : List Char) :
    pieces (cs.flatMap escape ++ '"' :: rest) = (cs.map pieceOf, .closed rest) := by
  induction cs with
  | nil => exact pieces_quote rest
  | cons c cs ih => simp [List.append_assoc, pieces_escape_append, ih]

/-- The second pass leaves the unit of a control character alone. -/
theorem join_pieceOf (ending : Ending) (c : Char) (ps : List Piece) :
    join ending (pieceOf c :: ps) = (join ending ps).map (c :: ·) := by
  rw [pieceOf]
  split
  · rename_i h
    have hl : isLow c.toNat = false := by
      simp only [isLow, Bool.and_eq_false_iff, decide_eq_false_iff_not]
      omega
    have hh : isHigh c.toNat = false := by
      simp only [isHigh, Bool.and_eq_false_iff, decide_eq_false_iff_not]
      omega
    rw [join.eq_def]
    simp only [hl, hh, Bool.false_eq_true, if_false, Char.ofNat_toNat]
  · rw [join]

/-- What is written between quotes is read as it was. -/
theorem join_map_pieceOf (rest cs : List Char) :
    join (.closed rest) (cs.map pieceOf) = .ok cs := by
  induction cs with
  | nil => rw [List.map_nil, join]; rfl
  | cons c cs ih => rw [List.map_cons, join_pieceOf, ih]; rfl

end Quoted

end BlockRobot
