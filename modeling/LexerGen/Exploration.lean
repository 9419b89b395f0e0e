import LexerGen.Edge
import Std.Data.HashMap

/-! Exploration of an automaton that is given by a successor function. The states that are met are
numbered in the order in which they are met, the start first, so the numbering depends on the shape
of the automaton alone. -/

namespace LexerGen

variable {σ : Type} [BEq σ] [Hashable σ]

/-- States with their numbers. -/
structure Numbering (σ : Type) [BEq σ] [Hashable σ] where
  number : Std.HashMap σ Nat
  states : Array σ

namespace Numbering

def empty : Numbering σ := ⟨∅, #[]⟩

/-- The number of `s`, which gets the next one if it has none; `none` if `limit` states have numbers
already. -/
def intern (limit : Nat) (m : Numbering σ) (s : σ) : Option (Nat × Numbering σ) :=
  match m.number[s]? with
  | some n => some (n, m)
  | none =>
    let n := m.states.size
    if n < limit then some (n, ⟨m.number.insert s n, m.states.push s⟩) else none

/-- The edges to the numbers of the given successors. -/
def internEdges (limit : Nat) (m : Numbering σ) :
    List (CharRange × σ) → Option (List Edge × Numbering σ)
  | [] => some ([], m)
  | (range, s) :: rest =>
    match m.intern limit s with
    | none => none
    | some (n, m) =>
      match m.internEdges limit rest with
      | none => none
      | some (edges, m) => some (⟨range, n⟩ :: edges, m)

end Numbering

/-- The numbered states, and for each of them its edges. -/
structure Exploration (σ : Type) [BEq σ] [Hashable σ] where
  numbering : Numbering σ
  edges : Array (List Edge)

namespace Exploration

/-- Goes on with the first state that has no edges yet. There are at most `limit` states, so as many
rounds are enough. -/
def rounds (next : σ → List (CharRange × σ)) (limit : Nat) :
    Nat → Exploration σ → Option (Exploration σ)
  | 0, x => some x
  | fuel + 1, x =>
    match x.numbering.states[x.edges.size]? with
    | none => some x
    | some s =>
      match x.numbering.internEdges limit (next s) with
      | none => none
      | some (edges, numbering) =>
        rounds next limit fuel ⟨numbering, x.edges.push (Edge.coalesce edges)⟩

/-- Explores from `start` on; `none` if there are more than `limit` states. -/
def run (next : σ → List (CharRange × σ)) (limit : Nat) (start : σ) : Option (Exploration σ) :=
  match Numbering.empty.intern limit start with
  | none => none
  | some (_, numbering) => rounds next limit limit ⟨numbering, #[]⟩

end Exploration

end LexerGen
