import LexerGen.Limits
import LexerGen.Nfa.Fragment
import LexerGen.Regex.Parser

/-! From a regular expression to a fragment. Every construction starts at an entry state that is
already there, adds states at the end of the array, and gives the state that is reached when the
expression has been matched. -/

namespace LexerGen.Nfa

open Regex (Error)

/-- The states built so far. -/
abbrev States := Array State

namespace States

/-- Adds a state without edges; its number is the size before. -/
def addState (states : States) : States := states.push {}

def addEpsilon (states : States) (source target : Nat) : States :=
  states.modify source fun s => { s with epsilons := s.epsilons ++ [target] }

/-- Adds an edge from `source` to `target` for every range of `chars`. -/
def addSet (states : States) (source : Nat) (chars : CharSet) (target : Nat) : States :=
  states.modify source fun s => { s with edges := s.edges ++ chars.ranges.map (⟨·, target⟩) }

/-- Refuses more states than a counted repeat may expand to; the quantifier stands at `pos`. -/
def checkSize (pos : Nat) (states : States) : Except Error Unit :=
  if Limits.maxNfaStates < states.size then .error ⟨.exceedsLimits, pos⟩ else .ok ()

end States

/-- Builds an expression from an entry state on, and gives its exit state. -/
abbrev Build := Nat → States → Except Error (Nat × States)

/-- `n` copies of `body`, one behind the other. -/
def copies (body : Build) (pos : Nat) : Nat → Build
  | 0, entry, states => .ok (entry, states)
  | n + 1, entry, states =>
    match body entry states with
    | .error e => .error e
    | .ok (exit, states) =>
      match states.checkSize pos with
      | .error e => .error e
      | .ok () => copies body pos n exit states

/-- `n` copies of `body`, one behind the other, each of which can be left out by going to `exit`. -/
def optionalCopies (body : Build) (pos exit : Nat) : Nat → Build
  | 0, entry, states => .ok (entry, states)
  | n + 1, entry, states =>
    match body entry (states.addEpsilon entry exit) with
    | .error e => .error e
    | .ok (next, states) =>
      match states.checkSize pos with
      | .error e => .error e
      | .ok () => optionalCopies body pos exit n next states

mutual

/-- The states of an expression. -/
def build : Regex → Build
  | .set chars, entry, states =>
    let exit := states.size
    .ok (exit, states.addState.addSet entry chars exit)
  | .concat items, entry, states => buildItems items entry states
  | .alternate branches, entry, states =>
    let exit := states.size
    match buildBranches exit branches entry states.addState with
    | .error e => .error e
    | .ok states => .ok (exit, states)
  | .repeated body min max pos, entry, states =>
    match copies (build body) pos min entry states with
    | .error e => .error e
    | .ok (current, states) =>
      match max with
      | none =>
        let head := states.size
        match build body head (states.addState.addEpsilon current head) with
        | .error e => .error e
        | .ok (last, states) => .ok (head, states.addEpsilon last head)
      | some max =>
        let exit := states.size
        match optionalCopies (build body) pos exit (max - min) current states.addState with
        | .error e => .error e
        | .ok (last, states) => .ok (exit, states.addEpsilon last exit)

/-- The states of the items, one behind the other. -/
def buildItems : List Regex → Build
  | [], entry, states => .ok (entry, states)
  | item :: items, entry, states =>
    match build item entry states with
    | .error e => .error e
    | .ok (exit, states) => buildItems items exit states

/-- The states of the branches, each between `entry` and `exit`. -/
def buildBranches (exit : Nat) : List Regex → Nat → States → Except Error States
  | [], _, states => .ok states
  | branch :: branches, entry, states =>
    let first := states.size
    match build branch first (states.addState.addEpsilon entry first) with
    | .error e => .error e
    | .ok (last, states) => buildBranches exit branches entry (states.addEpsilon last exit)

end

/-- The fragment of an expression. It has one accepting state, which is untagged. -/
def Fragment.ofRegex (r : Regex) : Except Error Fragment :=
  match build r 0 #[{}] with
  | .error e => .error e
  | .ok (exit, states) =>
    .ok { states := states.modify exit fun s => { s with accept := some .untagged }, start := 0 }

/-- The fragment of the pattern `cs`. -/
def Fragment.compile (cs : List Char) : Except Error Fragment :=
  match Regex.parse cs with
  | .error e => .error e
  | .ok r => Fragment.ofRegex r

end LexerGen.Nfa
