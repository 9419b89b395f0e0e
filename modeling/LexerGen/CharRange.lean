import LexerGen.Text.Scalar

/-! Inclusive ranges of characters. -/

namespace LexerGen

open Text

structure CharRange where
  lo : Char
  hi : Char
deriving Repr, DecidableEq

instance : Hashable CharRange := ⟨fun r => mixHash (hash r.lo.toNat) (hash r.hi.toNat)⟩

namespace CharRange

def contains (r : CharRange) (c : Char) : Bool := r.lo ≤ c && c ≤ r.hi

/-- Some character lies between `r` and the later range `s`. -/
def apart (r s : CharRange) : Bool := index r.hi + 1 < index s.lo

/-- The range of the characters with an index from `a` on and below `b`, if there are any. -/
def ofIndices? (a b : Nat) : Option CharRange :=
  if h : a < b ∧ b ≤ Char.numCodePoints then
    some ⟨Char.ofOrdinal ⟨a, by omega⟩, Char.ofOrdinal ⟨b - 1, by omega⟩⟩
  else none

end CharRange

end LexerGen
