import LexerGen.CharSet

/-! Regular expressions as trees, and what can be wrong with a written one. -/

namespace LexerGen

inductive Regex where
  /-- Any one character of the set. -/
  | set (chars : CharSet)
  /-- The items one after the other. -/
  | concat (items : List Regex)
  /-- One of the branches. -/
  | alternate (branches : List Regex)
  /-- At least `min` and at most `max` times `body`, without an upper bound if `max` is `none`; the
  quantifier was written at byte `pos`. -/
  | repeated (body : Regex) (min : Nat) (max : Option Nat) (pos : Nat)
deriving Repr, Inhabited

namespace Regex

inductive Fault where
  /-- A class that no character is in. -/
  | emptyClass
  /-- Nothing where an expression should be. -/
  | emptyExpression
  /-- A count, a nesting or an automaton beyond its bound. -/
  | exceedsLimits
  /-- A range of a class whose ends are out of order, or whose upper end is not one character. -/
  | invalidClassRange
  | invalidEscape
  | invalidRepeat
  /-- A quantifier with nothing to repeat. -/
  | invalidSyntax
  | mismatchedBraces
  | mismatchedBrackets
  | mismatchedParens
deriving Repr, DecidableEq

/-- A fault and the byte of the pattern where it was found. -/
structure Error where
  fault : Fault
  pos : Nat
deriving Repr, DecidableEq

def Fault.phrase : Fault → String
  | .emptyClass => "empty class"
  | .emptyExpression => "empty expression"
  | .exceedsLimits => "exceeds limits"
  | .invalidClassRange => "invalid class range"
  | .invalidEscape => "invalid escape"
  | .invalidRepeat => "invalid repeat"
  | .invalidSyntax => "invalid syntax"
  | .mismatchedBraces => "mismatched braces"
  | .mismatchedBrackets => "mismatched brackets"
  | .mismatchedParens => "mismatched parentheses"

/-- What a label under the faulty place says. -/
def Fault.label : Fault → String
  | .emptyClass => "this class matches no character"
  | .emptyExpression => "expected an expression here"
  | .exceedsLimits => "too large"
  | .invalidClassRange => "range bounds are out of order"
  | .invalidEscape => "unknown escape"
  | .invalidRepeat => "invalid repeat"
  | .invalidSyntax => "nothing to repeat"
  | .mismatchedBraces => "unbalanced brace"
  | .mismatchedBrackets => "unbalanced bracket"
  | .mismatchedParens => "unbalanced parenthesis"

def Error.message (e : Error) : String := s!"{e.fault.phrase} at character {e.pos}"

end Regex

end LexerGen
