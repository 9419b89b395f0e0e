import LexerGen.Text.Utf8

/-! Lines and columns. A line ends at a newline and at nothing else, a column counts characters, and
both are counted from one. -/

namespace LexerGen.Text

structure Location where
  line : Nat
  column : Nat
deriving Repr, DecidableEq

namespace Location

/-- The place behind the character `c` at `l`. -/
def after (l : Location) (c : Char) : Location :=
  if c = '\n' then ⟨l.line + 1, 1⟩ else ⟨l.line, l.column + 1⟩

/-- The place that lies `pos` bytes into `cs`, where `cs` starts at `l`. -/
def advance (l : Location) : List Char → Nat → Location
  | [], _ => l
  | c :: cs, pos => if pos < c.utf8Size then l else (l.after c).advance cs (pos - c.utf8Size)

/-- The line and column at byte `pos` of `source`. -/
def ofPosition (source : String) (pos : Nat) : Location :=
  (⟨1, 1⟩ : Location).advance source.toList pos

end Location

end LexerGen.Text
