/-! Paths of files, cut at their slashes. -/

namespace LexerGen.Command

structure Path where
  /-- Whether the path starts at the root. -/
  absolute : Bool
  /-- The names between the slashes. -/
  parts : List String
  /-- Whether a slash ends the path, so that only a directory can be meant. -/
  slashed : Bool
deriving Repr, DecidableEq

namespace Path

/-- The number of bytes at which a path is too long, however short its names are. -/
def lengthLimit : Nat := 4096

/-- The most bytes that a name can have. -/
def maxNameLength : Nat := 255

/-- Slashes next to each other count as one. -/
def ofString (text : String) : Path where
  absolute := text.toList.head? = some '/'
  parts := (text.splitOn "/").filter (· ≠ "")
  slashed := text.toList.getLast? = some '/'

end Path

end LexerGen.Command
