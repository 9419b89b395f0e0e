import LexerGen.Text.CombiningMark
import LexerGen.Text.Digit
import LexerGen.Text.Unprintable

/-! How messages and dumps name a single character: in single quotes, and by its code point where
its shape would not show. -/

namespace LexerGen.Text

/-- The code point of `c` written as an escape. -/
def codePointEscape (c : Char) : List Char :=
  ['\\', 'u', '\x7b'] ++ hexNumeral c.toNat ++ ['\x7d']

/-- What stands between the quotes for `c`. A double quote needs no escape there. -/
def visible (c : Char) : List Char :=
  if c = '\x00' then ['\\', '0']
  else if c = '\t' then ['\\', 't']
  else if c = '\r' then ['\\', 'r']
  else if c = '\n' then ['\\', 'n']
  else if c = '\'' then ['\\', '\'']
  else if c = '\\' then ['\\', '\\']
  else if isCombiningMark c || isUnprintable c then codePointEscape c
  else [c]

/-- The name of `c` in messages and dumps. -/
def quoted (c : Char) : String := String.ofList ('\'' :: visible c ++ ['\''])

end LexerGen.Text
