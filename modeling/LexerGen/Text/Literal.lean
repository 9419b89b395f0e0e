import LexerGen.Text.Quoted

/-! Character and string literals of generated source. Both kinds share one set of escapes, so a
literal never holds a raw quote, backslash, tab or line break. -/

namespace LexerGen.Text

/-- Control characters: the code points below the space, and the block from delete to `U+009F`. -/
def isControl (c : Char) : Bool := c.toNat < 0x20 || (0x7f ≤ c.toNat && c.toNat ≤ 0x9f)

/-- `c` as it stands inside a literal. -/
def escape (c : Char) : List Char :=
  if c = '\n' then ['\\', 'n']
  else if c = '\t' then ['\\', 't']
  else if c = '\r' then ['\\', 'r']
  else if c = '\x00' then ['\\', '0']
  else if c = '\\' then ['\\', '\\']
  else if c = '\'' then ['\\', '\'']
  else if c = '"' then ['\\', '"']
  else if isControl c then codePointEscape c
  else [c]

/-- `cs` as it stands inside a literal. -/
def escapeAll (cs : List Char) : List Char := cs.flatMap escape

def charLiteral (c : Char) : List Char := '\'' :: escape c ++ ['\'']

def stringLiteral (cs : List Char) : List Char := '"' :: escapeAll cs ++ ['"']

end LexerGen.Text
