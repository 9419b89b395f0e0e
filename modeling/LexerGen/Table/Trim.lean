import LexerGen.Graph
import LexerGen.Table.Basic

/-! Trimming: dropping the edges that cannot lead to an accepting state any more. -/

namespace LexerGen.StateTable

/-- For each state the states that have an edge to it. -/
def predecessors (t : StateTable) : Array (List Nat) :=
  t.rows.toList.zipIdx.foldl
    (fun found (row, n) => row.edges.foldl (fun found e => found.modify e.target (n :: ·)) found)
    (Array.replicate t.size [])

/-- The states from which an accepting state can be reached. -/
def live (t : StateTable) : Std.TreeSet Nat :=
  let predecessors := t.predecessors
  Graph.reachable (fun n => predecessors.getD n []) t.edgeCount (t.accepting.map Prod.fst)

/-- `t` without the edges to states that are not live. -/
def trim (t : StateTable) : StateTable :=
  let live := t.live
  { t with rows := t.rows.map fun row =>
      { row with edges := row.edges.filter fun e => live.contains e.target } }

end LexerGen.StateTable
