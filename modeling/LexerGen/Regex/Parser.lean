import LexerGen.Limits
import LexerGen.Regex.Class
import LexerGen.Regex.Quantifier

/-! The reader of regular expressions. It goes through the pattern once, from left to right, and
keeps a stack of the groups that are still open; each group holds the branches it has finished and
the items of the branch it is in. -/

namespace LexerGen.Regex

open Text

/-- The inside of a group, or of the whole pattern, as far as it was read. -/
structure Level where
  /-- The finished branches, the latest first. -/
  branches : List Regex
  /-- The items of the branch being read, the latest first. -/
  items : List Regex
deriving Inhabited

namespace Level

def empty : Level := ⟨[], []⟩

def push (l : Level) (r : Regex) : Level := { l with items := r :: l.items }

/-- The branch being read, if it has any item. -/
def branch? (l : Level) : Option Regex :=
  match l.items with
  | [] => none
  | [r] => some r
  | items => some (.concat items.reverse)

/-- The level after a bar. -/
def bar? (l : Level) : Option Level := l.branch?.map fun r => ⟨r :: l.branches, []⟩

/-- The expression of the finished level. -/
def close? (l : Level) : Option Regex :=
  l.branch?.map fun r =>
    match l.branches with
    | [] => r
    | branches => .alternate (r :: branches).reverse

end Level

structure State where
  /-- The level being read. -/
  level : Level
  /-- The levels around it, the innermost first, each with the position of the parenthesis that left
  it. -/
  outer : List (Nat × Level)
  /-- How many quantifiers stood directly behind another quantifier so far. -/
  stacked : Nat
  /-- Whether the last item ends with a quantifier. -/
  quantified : Bool
deriving Inhabited

namespace State

def start : State := ⟨.empty, [], 0, false⟩

def push (s : State) (r : Regex) : State :=
  { s with level := s.level.push r, quantified := false }

/-- Opens a group whose parenthesis stands at `pos`, just before `c`. -/
def openGroup (s : State) (pos : Nat) (c : Cursor) : Except Error State :=
  if c.peek? = some ')' then .error ⟨.emptyExpression, c.pos⟩
  else if Limits.maxDepth ≤ s.outer.length then .error ⟨.exceedsLimits, pos⟩
  else .ok { s with level := .empty, outer := (pos, s.level) :: s.outer, quantified := false }

/-- Closes the innermost group at the parenthesis at `pos`. -/
def closeGroup (s : State) (pos : Nat) : Except Error State :=
  match s.level.close?, s.outer with
  | none, _ => .error ⟨.emptyExpression, pos⟩
  | some _, [] => .error ⟨.mismatchedParens, pos⟩
  | some r, (_, level) :: outer => .ok ({ s with level, outer }.push r)

/-- Starts a branch at the bar at `pos`. -/
def bar (s : State) (pos : Nat) : Except Error State :=
  match s.level.bar? with
  | none => .error ⟨.emptyExpression, pos⟩
  | some level => .ok { s with level, quantified := false }

/-- Puts `r` with the bounds `b` of the quantifier at `pos` before `items`. -/
def repeatItem (s : State) (r : Regex) (items : List Regex) (pos : Nat) (b : Bounds) :
    Except Error State :=
  let stacked := if s.quantified then s.stacked + 1 else s.stacked
  if Limits.maxDepth < stacked then .error ⟨.exceedsLimits, pos⟩
  else
    let level := { s.level with items := .repeated r b.min b.max pos :: items }
    .ok { s with level, stacked, quantified := true }

/-- Reads the quantifier that starts with `x` and applies it to the last item, where `x` stands at
`pos` and `c` is the cursor behind it. -/
def quantify (s : State) (pos : Nat) (x : Char) (c : Cursor) : Except Error (State × Cursor) :=
  match s.level.items with
  | [] => .error ⟨.invalidSyntax, pos⟩
  | r :: items =>
    match bounds pos x c with
    | .error e => .error e
    | .ok (b, c) => (s.repeatItem r items pos b).map (·, c)

/-- The expression that was read, if the pattern ends at `pos`. -/
def finish (s : State) (pos : Nat) : Except Error Regex :=
  match s.level.close?, s.outer with
  | none, _ => .error ⟨.emptyExpression, pos⟩
  | some _, (opened, _) :: _ => .error ⟨.mismatchedParens, opened⟩
  | some r, [] => .ok r

/-- Reads the atom that starts with `x`, where `x` stands at `pos` and `c` is the cursor behind
it. -/
def atom (pos : Nat) (x : Char) (c : Cursor) : Except Error (CharSet × Cursor) :=
  match x with
  | '[' => charClass pos c
  | ']' => .error ⟨.mismatchedBrackets, pos⟩
  | '\x7d' => .error ⟨.mismatchedBraces, pos⟩
  | '.' => .ok (.dot, c)
  | '\\' =>
    match escape? c with
    | some r => .ok r
    | none => .error ⟨.invalidEscape, pos⟩
  | x => .ok (.singleton x, c)

/-- Reads what starts with `x`, where `x` stands at `pos` and `c` is the cursor behind it. -/
def step (s : State) (pos : Nat) (x : Char) (c : Cursor) : Except Error (State × Cursor) :=
  match x with
  | '(' => (s.openGroup pos c).map (·, c)
  | ')' => (s.closeGroup pos).map (·, c)
  | '|' => (s.bar pos).map (·, c)
  | x =>
    if isQuantifierStart x then s.quantify pos x c
    else (atom pos x c).map fun (chars, c) => (s.push (.set chars), c)

theorem moves_of_map_ok {α β : Type} {r : Except Error α} {f : α → β × Cursor} {b : β}
    {c c' : Cursor} (hf : ∀ a, r = .ok a → c.Moves (f a).2) (h : r.map f = .ok (b, c')) :
    c.Moves c' := by
  cases r with
  | error e => cases h
  | ok a =>
    have := hf a rfl
    rwa [show f a = (b, c') from Except.ok.inj h] at this

theorem moves_of_quantify {s s' : State} {pos : Nat} {x : Char} {c c' : Cursor}
    (h : s.quantify pos x c = .ok (s', c')) : c.Moves c' := by
  unfold quantify at h
  split at h
  · cases h
  · split at h
    · cases h
    · rename_i b c₁ h₁
      exact (moves_of_bounds h₁).trans (moves_of_map_ok (fun _ _ => .refl c₁) h)

theorem moves_of_atom {pos : Nat} {x : Char} {c c' : Cursor} {chars : CharSet}
    (h : atom pos x c = .ok (chars, c')) : c.Moves c' := by
  unfold atom at h
  split at h
  · exact (advances_of_charClass h).moves
  · cases h
  · cases h
  · obtain ⟨-, rfl⟩ := Prod.mk.inj (Except.ok.inj h)
    exact Cursor.Moves.refl c
  · split at h
    · rename_i r h₁
      rw [Except.ok.inj h] at h₁
      exact (advances_of_escape? h₁).moves
    · cases h
  · obtain ⟨-, rfl⟩ := Prod.mk.inj (Except.ok.inj h)
    exact Cursor.Moves.refl c

theorem moves_of_step {s s' : State} {pos : Nat} {x : Char} {c c' : Cursor}
    (h : s.step pos x c = .ok (s', c')) : c.Moves c' := by
  unfold step at h
  split at h
  · exact moves_of_map_ok (fun _ _ => .refl c) h
  · exact moves_of_map_ok (fun _ _ => .refl c) h
  · exact moves_of_map_ok (fun _ _ => .refl c) h
  · split at h
    · exact moves_of_quantify h
    · exact moves_of_map_ok (fun (_, _) ha => moves_of_atom ha) h

/-- Reads the rest of the pattern. -/
def run (s : State) (c : Cursor) : Except Error Regex :=
  match h : c.next? with
  | none => s.finish c.pos
  | some (x, c₁) =>
    match h' : s.step c.pos x c₁ with
    | .error e => .error e
    | .ok (s₁, c₂) =>
      have := ((Cursor.advances_of_next? h).trans_moves (moves_of_step h')).length_lt
      s₁.run c₂
termination_by c.rest.length

end State

/-- Reads the pattern `cs`. -/
def parse (cs : List Char) : Except Error Regex :=
  if maxPosition < byteLength cs then .error ⟨.exceedsLimits, 0⟩
  else State.start.run (.start cs)

end LexerGen.Regex
