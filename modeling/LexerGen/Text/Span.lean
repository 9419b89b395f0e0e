/-! Byte ranges of a text, end exclusive. -/

namespace LexerGen.Text

structure Span where
  start : Nat
  stop : Nat
deriving Repr, DecidableEq

namespace Span

/-- The empty span at `pos`. -/
def point (pos : Nat) : Span := ⟨pos, pos⟩

/-- The span of the one character `c` at `pos`. -/
def ofChar (pos : Nat) (c : Char) : Span := ⟨pos, pos + c.utf8Size⟩

def render (s : Span) : String := s!"[{s.start}, {s.stop})"

end Span

end LexerGen.Text
