/-! The bounds that keep patterns and automata at a workable size. -/

namespace LexerGen.Limits

/-- The greatest count of a bounded repeat. -/
def maxRepeat : Nat := 1000

/-- The greatest number of groups open at once, and the greatest number of quantifiers that stand
directly behind another quantifier in one pattern. -/
def maxDepth : Nat := 128

/-- The number of states past which the expansion of a counted repeat is given up. -/
def maxNfaStates : Nat := 100000

/-- The greatest number of states of a deterministic automaton before it is minimised. -/
def maxDfaStates : Nat := 65536

end LexerGen.Limits
