import LexerGen.Exploration
import LexerGen.Graph
import LexerGen.Limits
import LexerGen.Nfa.Fragment
import LexerGen.Regex.Basic
import LexerGen.Table.Basic

/-! Determinisation. A state of the deterministic automaton is the set of states of the fragment
that some text leads to, written as a sorted list. The edges out of a set are found on the intervals
that the ends of its members' ranges cut out, within which all characters behave alike. -/

namespace LexerGen.Nfa

open Text

/-- `ns` in increasing order and without repetitions. -/
def sortedDistinct (ns : List Nat) : List Nat := (Std.TreeSet.ofList ns).toList

namespace Fragment

/-- The number of edges that read nothing. -/
def epsilonCount (f : Fragment) : Nat :=
  f.states.toList.foldr (fun s n => s.epsilons.length + n) 0

/-- The states reachable from `seeds` without reading anything, in increasing order. The count of
such edges is given, so that it is made only once. -/
def closure (f : Fragment) (epsilons : Nat) (seeds : List Nat) : List Nat :=
  (Graph.reachable (fun n => (f.state n).epsilons) epsilons seeds).toList

/-- The edges of the members of a set that read a character. -/
def edgesOf (f : Fragment) (members : List Nat) : List Edge :=
  members.flatMap fun n => (f.state n).edges

/-- The first of the marks with the lowest priority. -/
def strongest : List Accept → Option Accept
  | [] => none
  | a :: rest =>
    match strongest rest with
    | none => some a
    | some b => if b.priority < a.priority then some b else some a

/-- The tag of a set: that of its strongest accepting member. -/
def tagOf? (f : Fragment) (members : List Nat) : Option String :=
  (strongest (members.filterMap fun n => (f.state n).accept)).map Accept.tag

end Fragment

/-- The indices at which a range of `edges` starts, and those right behind its end. -/
def cuts (edges : List Edge) : List Nat :=
  sortedDistinct (edges.flatMap fun e => [index e.range.lo, index e.range.hi + 1])

/-- The intervals between neighbouring cuts. -/
def intervals (edges : List Edge) : List CharRange :=
  let cs := cuts edges
  (cs.zip cs.tail).filterMap fun (a, b) => CharRange.ofIndices? a b

/-- The targets of the edges that hold all of `r`. -/
def targetsOn (edges : List Edge) (r : CharRange) : List Nat :=
  (edges.filter fun e => e.range.lo ≤ r.lo && r.hi ≤ e.range.hi).map Edge.target

namespace Fragment

/-- The sets that a set leads to, with the intervals that lead there. -/
def successors (f : Fragment) (epsilons : Nat) (members : List Nat) :
    List (CharRange × List Nat) :=
  let edges := f.edgesOf members
  (intervals edges).filterMap fun r =>
    match targetsOn edges r with
    | [] => none
    | targets => some (r, f.closure epsilons targets)

/-- The deterministic automaton with the same meaning, if it is not too large. -/
def determinise (f : Fragment) : Except Regex.Error StateTable :=
  let epsilons := f.epsilonCount
  let start := f.closure epsilons [f.start]
  match Exploration.run (f.successors epsilons) Limits.maxDfaStates start with
  | none => .error ⟨.exceedsLimits, 0⟩
  | some x =>
    let rows := x.edges.zip x.numbering.states
    .ok { entry := 0
          rows := rows.map fun (edges, members) =>
            { edges := edges.toArray, tag := f.tagOf? members } }

end Fragment

end LexerGen.Nfa
