import Std.Data.TreeSet

/-! Reachability in graphs whose nodes are numbers. -/

namespace LexerGen.Graph

/-- `seen` and what can be reached from `pending`. Each step takes a node off `pending`; `fuel`
bounds the steps. -/
def visit (next : Nat → List Nat) : Nat → List Nat → Std.TreeSet Nat → Std.TreeSet Nat
  | 0, _, seen => seen
  | _, [], seen => seen
  | fuel + 1, node :: pending, seen =>
    if seen.contains node then visit next fuel pending seen
    else visit next fuel (next node ++ pending) (seen.insert node)

/-- The nodes reachable from `seeds`, in a graph with at most `edges` edges. Every edge is followed
once, so a step for each seed and each edge is enough. -/
def reachable (next : Nat → List Nat) (edges : Nat) (seeds : List Nat) : Std.TreeSet Nat :=
  visit next (seeds.length + edges) seeds ∅

end LexerGen.Graph
