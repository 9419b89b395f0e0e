/-! White space. -/

namespace LexerGen.Text

/-- Code points with the Unicode property `White_Space`, as inclusive ranges in increasing order. -/
def blankRanges : Array (Nat × Nat) := #[
    (0x9, 0xd), (0x20, 0x20), (0x85, 0x85), (0xa0, 0xa0), (0x1680, 0x1680), (0x2000, 0x200a),
    (0x2028, 0x2029), (0x202f, 0x202f), (0x205f, 0x205f), (0x3000, 0x3000)]

/-- White space of any script. -/
def isBlank (c : Char) : Bool :=
  blankRanges.any fun (lo, hi) => decide (lo ≤ c.toNat) && decide (c.toNat ≤ hi)

end LexerGen.Text
