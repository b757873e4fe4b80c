import BuildPlan.Text.Digits
import BuildPlan.Text.Hidden

/-!
# Quoted texts

A value that is quoted in a message stands between double quotes. Backslashes, double quotes and the common control
characters have an escape of two characters, other hidden characters are written by their code point, so that the
quoted text shows every character.
-/

namespace BuildPlan.Text

/-- How a character is written between the quotes. -/
def quoteChar (c : Char) : List Char :=
  if c = '\x00' then ['\\', '0']
  else if c = '\t' then ['\\', 't']
  else if c = '\n' then ['\\', 'n']
  else if c = '\r' then ['\\', 'r']
  else if c = '"' then ['\\', '"']
  else if c = '\\' then ['\\', '\\']
  else if isHidden c then ['\\', 'u', '\x7b'] ++ hexDigits c.toNat ++ ['\x7d']
  else [c]

/-- The text between double quotes. -/
def quoted (s : String) : String := String.ofList ('"' :: (s.toList.flatMap quoteChar ++ ['"']))

end BuildPlan.Text
