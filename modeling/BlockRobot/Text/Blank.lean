/-!
# Blank characters

The characters with the Unicode property *White_Space*: twenty-five code points,
of which core's `Char.isWhitespace` knows four.  A number typed into a text field
may be surrounded by any of them.
-/

namespace BlockRobot

/-- The code points with the property White_Space. -/
def blankCodes : List Nat :=
  [0x9, 0xA, 0xB, 0xC, 0xD, 0x20, 0x85, 0xA0, 0x1680,
   0x2000, 0x2001, 0x2002, 0x2003, 0x2004, 0x2005, 0x2006, 0x2007, 0x2008, 0x2009, 0x200A,
   0x2028, 0x2029, 0x202F, 0x205F, 0x3000]

example : blankCodes.length = 25 := rfl

/-- Whether a character has the property White_Space. -/
def isBlank (c : Char) : Bool := blankCodes.contains c.toNat

/-- A text without the blanks at its two ends. -/
def trimBlanks (cs : List Char) : List Char :=
  ((cs.dropWhile isBlank).reverse.dropWhile isBlank).reverse

/-- Every character that core takes for white space is blank. -/
theorem isBlank_of_isWhitespace {c : Char} (h : c.isWhitespace = true) : isBlank c = true := by
  simp only [Char.isWhitespace, Bool.or_eq_true, decide_eq_true_eq] at h
  rcases h with ((h | h) | h) | h <;> subst h <;> decide

/-- Blanks in front of something else are all dropped. -/
theorem dropWhile_isBlank_append {blanks cs : List Char} (hblanks : ∀ c ∈ blanks, isBlank c = true)
    (hcs : ∀ c ∈ cs.head?, isBlank c = false) : (blanks ++ cs).dropWhile isBlank = cs := by
  rw [List.dropWhile_append_of_pos hblanks]
  cases cs with
  | nil => rfl
  | cons c cs => rw [List.dropWhile_cons, hcs c rfl]; rfl

/-- Blanks around a text without blanks are taken off, and nothing else is. -/
theorem trimBlanks_append {before text after : List Char}
    (hbefore : ∀ c ∈ before, isBlank c = true) (hafter : ∀ c ∈ after, isBlank c = true)
    (hne : text ≠ []) (htext : ∀ c ∈ text, isBlank c = false) :
    trimBlanks (before ++ text ++ after) = text := by
  have hfront : ∀ c ∈ (text ++ after).head?, isBlank c = false := by
    obtain ⟨c, cs, rfl⟩ := List.exists_cons_of_ne_nil hne
    intro x hx
    exact Option.some.inj hx ▸ htext c (List.mem_cons_self ..)
  have hback : ∀ c ∈ text.reverse.head?, isBlank c = false := fun c hc =>
    htext c (List.mem_reverse.1 (List.mem_of_mem_head? hc))
  rw [trimBlanks, List.append_assoc, dropWhile_isBlank_append hbefore hfront, List.reverse_append,
    dropWhile_isBlank_append (fun c hc => hafter c (List.mem_reverse.1 hc)) hback,
    List.reverse_reverse]

end BlockRobot
