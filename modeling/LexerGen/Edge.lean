import LexerGen.CharRange

/-! Edges of automata: on any character of a range, go to a state. -/

namespace LexerGen

structure Edge where
  range : CharRange
  target : Nat
deriving Repr, DecidableEq, Hashable

namespace Edge

def contains (e : Edge) (c : Char) : Bool := e.range.contains c

/-- `f` starts right behind `e` and has the same target. -/
def meets (e f : Edge) : Bool :=
  e.target == f.target && Text.index e.range.hi + 1 == Text.index f.range.lo

/-- Joins neighbouring edges that meet. -/
def coalesce : List Edge → List Edge
  | [] => []
  | e :: rest =>
    match coalesce rest with
    | [] => [e]
    | f :: tail =>
      if e.meets f then ⟨⟨e.range.lo, f.range.hi⟩, e.target⟩ :: tail else e :: f :: tail

end Edge

end LexerGen
