import LexerGen.Nfa.Subset
import LexerGen.Nfa.Thompson
import LexerGen.Table.Minimise
import LexerGen.Table.Trim

/-! From a fragment to the minimal state table with the same meaning. -/

namespace LexerGen.Nfa

/-- The minimal table of `f`, if its deterministic automaton is not too large. -/
def Fragment.toTable (f : Fragment) : Except Regex.Error StateTable :=
  f.determinise.map fun t => t.trim.minimise

end LexerGen.Nfa
