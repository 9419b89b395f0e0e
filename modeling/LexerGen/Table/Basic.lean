import LexerGen.Edge
import LexerGen.Text.Quoted

/-! State tables: deterministic automata as arrays of rows, one for each state. In a well-formed
table the edges of a row are sorted and disjoint, so a transition is found by binary search. -/

namespace LexerGen

open Text

/-- The edges of a state, and its tag if it accepts. A state that accepts for no rule in particular
has the empty tag. -/
structure Row where
  edges : Array Edge := #[]
  tag : Option String := none
deriving Repr, DecidableEq, Inhabited

structure StateTable where
  entry : Nat
  rows : Array Row
deriving Repr, DecidableEq, Inhabited

namespace StateTable

def size (t : StateTable) : Nat := t.rows.size

def isEmpty (t : StateTable) : Bool := t.rows.isEmpty

/-- The row of a state; a number without a state has an empty row. -/
def row (t : StateTable) (state : Nat) : Row := t.rows.getD state {}

def edges (t : StateTable) (state : Nat) : Array Edge := (t.row state).edges

/-- The tag of an accepting state. -/
def tag? (t : StateTable) (state : Nat) : Option String := (t.row state).tag

def isAccepting (t : StateTable) (state : Nat) : Bool := (t.tag? state).isSome

/-- Searches the edges numbered from `low` on and below `high` for one with `c`. -/
def search (edges : Array Edge) (c : Char) (low high : Nat) : Option Edge :=
  if low < high then
    let middle := low + (high - low) / 2
    match edges[middle]? with
    | none => none
    | some e =>
      if e.range.hi < c then search edges c (middle + 1) high
      else if c < e.range.lo then search edges c low middle
      else some e
  else none
termination_by high - low

/-- The state that `state` goes to on `c`. -/
def next? (t : StateTable) (state : Nat) (c : Char) : Option Nat :=
  let edges := t.edges state
  (search edges c 0 edges.size).map Edge.target

/-- The accepting states with their tags, in the order of their numbers. -/
def accepting (t : StateTable) : List (Nat × String) :=
  t.rows.toList.zipIdx.filterMap fun (row, n) => row.tag.map (n, ·)

def edgeCount (t : StateTable) : Nat := t.rows.toList.foldr (fun row n => row.edges.size + n) 0

def renderEdge (e : Edge) : String :=
  let chars :=
    if e.range.lo = e.range.hi then quoted e.range.lo
    else quoted e.range.lo ++ "..=" ++ quoted e.range.hi
  s!"  {chars} -> {e.target}\n"

def renderRow (state : Nat) (row : Row) : String :=
  let accepts :=
    match row.tag with
    | none => ""
    | some "" => " accepts"
    | some tag => " accepts " ++ tag
  s!"state {state}{accepts}\n" ++ String.join (row.edges.toList.map renderEdge)

/-- The table as text, a line for each state and each edge. -/
def render (t : StateTable) : String :=
  s!"entry: {t.entry}\n" ++ String.join (t.rows.toList.zipIdx.map fun (row, n) => renderRow n row)

end StateTable

end LexerGen
