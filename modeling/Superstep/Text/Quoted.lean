import Superstep.Text.Shapeless

/-!
# Quoted text

A message that cites input shows it between double quotes in printable form. The quote, the
backslash and the common controls have short escapes; a character without a shape of its own is
given by its code point.
-/

namespace Superstep.Text

/-- The code point of a character in braces, in the fewest hexadecimal digits. -/
def codePointEscape (c : Char) : List Char :=
  ['\\', 'u', '\x7b'] ++ Nat.toDigits 16 c.toNat ++ ['\x7d']

/-- A character as it stands inside a quoted text. -/
def escape (c : Char) : List Char :=
  if c = '\x00' then ['\\', '0']
  else if c = '\t' then ['\\', 't']
  else if c = '\r' then ['\\', 'r']
  else if c = '\n' then ['\\', 'n']
  else if c = '"' then ['\\', '"']
  else if c = '\\' then ['\\', '\\']
  else if isShapeless c then codePointEscape c
  else [c]

/-- The text between double quotes, every character in printable form. -/
def quoted (text : List Char) : String := String.ofList ('"' :: text.flatMap escape ++ ['"'])

end Superstep.Text
