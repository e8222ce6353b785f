import TwoPhaseStore.Text.Printable

/-!
Strings as they are shown inside messages: between quotes, with the quote, the backslash and what
cannot be printed written as escapes.
-/

namespace TwoPhaseStore.Text

/-- A code point in lower-case hexadecimal, as `\u` and braces. -/
def codePointEscape (c : Char) : List Char :=
  ['\\', 'u', '\x7b'] ++ Nat.toDigits 16 c.toNat ++ ['\x7d']

def quotedChar (c : Char) : List Char :=
  if c = '"' then ['\\', '"']
  else if c = '\\' then ['\\', '\\']
  else if c = '\n' then ['\\', 'n']
  else if c = '\r' then ['\\', 'r']
  else if c = '\t' then ['\\', 't']
  else if c = '\x00' then ['\\', '0']
  else if isPrintable c then [c]
  else codePointEscape c

def quoted (s : String) : String := String.ofList ('"' :: s.toList.flatMap quotedChar ++ ['"'])

end TwoPhaseStore.Text
