import BlockRobot.Text.Seen

/-!
# Texts shown in messages

A message that quotes a text found in the input must not be broken by what the text
holds.  The text stands between quotes; a quote, a backslash, the common controls
and every character that is not seen are written with a backslash.
-/

namespace BlockRobot

/-- The backslash form of a code point. -/
def codeEscape (n : Nat) : List Char :=
  ['\\', 'u', '\x7b'] ++ Nat.toDigits 16 n ++ ['\x7d']

/-- A character as it is shown in a message. -/
def shownChar (c : Char) : List Char :=
  if c = '\x00' then ['\\', '0']
  else if c = '\t' then ['\\', 't']
  else if c = '\r' then ['\\', 'r']
  else if c = '\n' then ['\\', 'n']
  else if c = '\\' then ['\\', '\\']
  else if c = '"' then ['\\', '"']
  else if isSeen c then [c]
  else codeEscape c.toNat

/-- A text as it is shown in a message. -/
def shown (s : String) : String := .ofList ('"' :: s.toList.flatMap shownChar ++ ['"'])

end BlockRobot
