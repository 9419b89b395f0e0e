import LexerGen.Edge

/-! Nondeterministic automata. A fragment is an array of states with a start; its states are
numbered by their place in the array. -/

namespace LexerGen.Nfa

/-- What an accepting state accepts for. Where several states accept, the lowest priority wins. -/
structure Accept where
  tag : String
  priority : Nat
deriving Repr, DecidableEq

/-- The mark of a state that accepts for no rule yet. -/
def Accept.untagged : Accept := ⟨"", 4294967295⟩

structure State where
  edges : List Edge := []
  /-- Targets of the edges that read nothing. -/
  epsilons : List Nat := []
  accept : Option Accept := none
deriving Repr, DecidableEq, Inhabited

/-- Adds `n` to the number of every target. -/
def State.shift (n : Nat) (s : State) : State :=
  { s with
    edges := s.edges.map fun e => { e with target := e.target + n }
    epsilons := s.epsilons.map (· + n) }

structure Fragment where
  states : Array State
  start : Nat
deriving Repr, DecidableEq

namespace Fragment

def size (f : Fragment) : Nat := f.states.size

def isEmpty (f : Fragment) : Bool := f.states.isEmpty

/-- The state numbered `n`; a number without a state has one without edges. -/
def state (f : Fragment) (n : Nat) : State := f.states.getD n {}

/-- The accepting states in the order of their numbers. -/
def accepting (f : Fragment) : List (Nat × Accept) :=
  f.states.toList.zipIdx.filterMap fun (s, n) => s.accept.map (n, ·)

/-- Gives every accepting state the tag and the priority. -/
def stamp (f : Fragment) (tag : String) (priority : Nat) : Fragment :=
  let mark (s : State) : State := { s with accept := s.accept.map fun _ => ⟨tag, priority⟩ }
  { f with states := f.states.map mark }

/-- Accepts what `f` or `g` accepts: the states of `f`, those of `g`, and a new start. -/
def union (f g : Fragment) : Fragment :=
  let n := f.size
  let start : State := { epsilons := [f.start, g.start + n] }
  { states := (f.states ++ g.states.map (State.shift n)).push start
    start := n + g.size }

end Fragment

end LexerGen.Nfa
