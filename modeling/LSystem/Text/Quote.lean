import LSystem.Text.Combining
import LSystem.Text.Unprintable

/-!
# Strings in messages

A message shows a string between quotes and in such a way that every character can be seen:
characters that have no shape of their own are written as their number.
-/

namespace LSystem.Text

/-- A character as its number in lower case hexadecimal digits. -/
def numbered (c : Char) : List Char := ['\\', 'u', '{'] ++ Nat.toDigits 16 c.toNat ++ ['}']

def visible (c : Char) : List Char :=
  if c = '\x00' then ['\\', '0']
  else if c = '\t' then ['\\', 't']
  else if c = '\r' then ['\\', 'r']
  else if c = '\n' then ['\\', 'n']
  else if c = '"' then ['\\', '"']
  else if c = '\\' then ['\\', '\\']
  else if isCombining c || isUnprintable c then numbered c
  else [c]

def quote (s : String) : String := String.ofList ('"' :: s.toList.flatMap visible ++ ['"'])

end LSystem.Text
