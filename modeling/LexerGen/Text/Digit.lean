/-! Digits of ASCII, and hexadecimal numerals. -/

namespace LexerGen.Text

/-- The value of a decimal digit. -/
def decimalDigit? (c : Char) : Option Nat :=
  if '0' ≤ c ∧ c ≤ '9' then some (c.toNat - '0'.toNat) else none

/-- The value of a hexadecimal digit, in either case. -/
def hexDigit? (c : Char) : Option Nat :=
  if '0' ≤ c ∧ c ≤ '9' then some (c.toNat - '0'.toNat)
  else if 'a' ≤ c ∧ c ≤ 'f' then some (c.toNat - 'a'.toNat + 10)
  else if 'A' ≤ c ∧ c ≤ 'F' then some (c.toNat - 'A'.toNat + 10)
  else none

def isDecimalDigit (c : Char) : Bool := (decimalDigit? c).isSome

/-- The number that the digits `ds` write in base ten; other characters count as zero. -/
def decimalValue (ds : List Char) : Nat :=
  ds.foldl (fun n d => n * 10 + (decimalDigit? d).getD 0) 0

/-- The numeral of `n` in base sixteen, in lower case and without padding. -/
def hexNumeral (n : Nat) : List Char := Nat.toDigits 16 n

end LexerGen.Text
