import LexerGen.Table.Basic

/-! Building a table from parts that may be wrong. -/

namespace LexerGen

open Text

inductive TableError where
  | empty
  | entryOutOfRange (entry size : Nat)
  | targetOutOfRange (state target size : Nat)
  | invalidRange (state : Nat) (lo hi : Char)
  | unorderedEdges (state : Nat)
  | acceptingOutOfRange (state size : Nat)
deriving Repr, DecidableEq

def TableError.message : TableError → String
  | .empty => "a state table needs at least one state"
  | .entryOutOfRange entry size => s!"entry state {entry} is out of range for {size} states"
  | .targetOutOfRange state target size =>
    s!"state {state} has an edge to state {target}, but there are only {size} states"
  | .invalidRange state lo hi =>
    s!"state {state} has an edge with an empty range {quoted lo}..={quoted hi}"
  | .unorderedEdges state => s!"edges of state {state} are unsorted or overlap"
  | .acceptingOutOfRange state size =>
    s!"accepting state {state} is out of range for {size} states"

namespace StateTable

/-- Each edge lies below the one behind it. -/
def ordered : List Edge → Bool
  | e :: f :: rest => e.range.hi < f.range.lo && ordered (f :: rest)
  | _ => true

/-- Checks one edge of `state` in a table of `size` states. -/
def checkEdge (size state : Nat) (e : Edge) : Except TableError Unit :=
  if e.range.hi < e.range.lo then .error (.invalidRange state e.range.lo e.range.hi)
  else if size ≤ e.target then .error (.targetOutOfRange state e.target size)
  else .ok ()

/-- Checks the edges of `state` one by one. -/
def checkEachEdge (size state : Nat) : List Edge → Except TableError Unit
  | [] => .ok ()
  | e :: rest =>
    match checkEdge size state e with
    | .error err => .error err
    | .ok () => checkEachEdge size state rest

/-- Checks the edges of all states from number `state` on, each edge of a state before their
order. -/
def checkStates (size : Nat) : Nat → List (List Edge) → Except TableError Unit
  | _, [] => .ok ()
  | state, edges :: rest =>
    match checkEachEdge size state edges with
    | .error e => .error e
    | .ok () =>
      if ordered edges then checkStates size (state + 1) rest else .error (.unorderedEdges state)

/-- Gives `state` the tag, in place of any that it has. -/
def setTag (rows : Array Row) (state : Nat) (tag : String) : Except TableError (Array Row) :=
  if state < rows.size then .ok (rows.modify state fun row => { row with tag := some tag })
  else .error (.acceptingOutOfRange state rows.size)

/-- Gives each listed state its tag, one after the other. -/
def setTags : List (Nat × String) → Array Row → Except TableError (Array Row)
  | [], rows => .ok rows
  | (state, tag) :: rest, rows =>
    match setTag rows state tag with
    | .error e => .error e
    | .ok rows => setTags rest rows

/-- The table with the given entry, edges of each state and tags, if they fit together. Of several
tags for one state the last one counts. -/
def ofParts (entry : Nat) (transitions : List (List Edge)) (tags : List (Nat × String)) :
    Except TableError StateTable :=
  let size := transitions.length
  if size = 0 then .error .empty
  else if size ≤ entry then .error (.entryOutOfRange entry size)
  else
    match checkStates size 0 transitions with
    | .error e => .error e
    | .ok () =>
      let rows := (transitions.map fun edges => ({ edges := edges.toArray } : Row)).toArray
      match setTags tags rows with
      | .error e => .error e
      | .ok rows => .ok { entry, rows }

end StateTable

end LexerGen
