import LexerGen.Regex.Basic
import LexerGen.Regex.Escape

/-! Bracket classes. A `]` that comes first is an ordinary character, and a `-` makes a range only
between a single character and something other than the closing bracket. -/

namespace LexerGen.Regex

open Text

/-- What an item of a class starts with. Only a single character can be the end of a range. -/
inductive ClassAtom where
  | char (c : Char)
  | set (chars : CharSet)

def ClassAtom.ofSet (s : CharSet) : ClassAtom :=
  match s.single? with
  | some c => .char c
  | none => .set s

/-- Reads the atom that starts with `x`, where `x` stands at `pos` and `c` is the cursor behind
it. -/
def classAtom (pos : Nat) (x : Char) (c : Cursor) : Except Error (ClassAtom × Cursor) :=
  if x = '\\' then
    match escape? c with
    | some (s, c) => .ok (.ofSet s, c)
    | none => .error ⟨.invalidEscape, pos⟩
  else .ok (.char x, c)

/-- The cursor on the upper end of a range, if the text goes on with a `-` and an upper end. -/
def rangeEnd? (c : Cursor) : Option (Nat × Char × Cursor) := do
  let (dash, c) ← c.next?
  guard (dash = '-')
  let (x, c') ← c.next?
  guard (x ≠ ']')
  return (c.pos, x, c')

/-- Reads the item that starts with `x` and adds it to `chars`, where `x` stands at `pos` and `c` is
the cursor behind it. -/
def classItem (chars : CharSet) (pos : Nat) (x : Char) (c : Cursor) :
    Except Error (CharSet × Cursor) :=
  match classAtom pos x c with
  | .error e => .error e
  | .ok (.set s, c) => .ok (chars.union s, c)
  | .ok (.char lo, c) =>
    match rangeEnd? c with
    | none => .ok (chars.addChar lo, c)
    | some (pos', y, c) =>
      match classAtom pos' y c with
      | .error e => .error e
      | .ok (.set _, _) => .error ⟨.invalidClassRange, pos⟩
      | .ok (.char hi, c) =>
        if lo ≤ hi then .ok (chars.addRange lo hi, c) else .error ⟨.invalidClassRange, pos⟩

theorem moves_of_classAtom {pos : Nat} {x : Char} {c c' : Cursor} {a : ClassAtom}
    (h : classAtom pos x c = .ok (a, c')) : c.Moves c' := by
  unfold classAtom at h
  split at h
  · split at h
    · rename_i s c1 h1
      obtain ⟨-, rfl⟩ := Prod.mk.inj (Except.ok.inj h)
      exact (advances_of_escape? h1).moves
    · cases h
  · obtain ⟨-, rfl⟩ := Prod.mk.inj (Except.ok.inj h)
    exact Cursor.Moves.refl c

theorem advances_of_rangeEnd? {c c' : Cursor} {pos : Nat} {x : Char}
    (h : rangeEnd? c = some (pos, x, c')) : c.Advances c' := by
  obtain ⟨⟨y, c1⟩, h1, h⟩ := Option.bind_eq_some_iff.1 h
  obtain ⟨_, _, h⟩ := Option.bind_eq_some_iff.1 h
  obtain ⟨⟨z, c2⟩, h2, h⟩ := Option.bind_eq_some_iff.1 h
  obtain ⟨_, _, h⟩ := Option.bind_eq_some_iff.1 h
  obtain ⟨-, h3⟩ := Prod.mk.inj (Option.some.inj h)
  obtain ⟨-, rfl⟩ := Prod.mk.inj h3
  exact (Cursor.advances_of_next? h1).trans (Cursor.advances_of_next? h2)

theorem moves_of_classItem {chars chars' : CharSet} {pos : Nat} {x : Char} {c c' : Cursor}
    (h : classItem chars pos x c = .ok (chars', c')) : c.Moves c' := by
  unfold classItem at h
  split at h
  · cases h
  · rename_i s c1 h1
    obtain ⟨-, rfl⟩ := Prod.mk.inj (Except.ok.inj h)
    exact moves_of_classAtom h1
  · rename_i lo c1 h1
    have m1 := moves_of_classAtom h1
    split at h
    · obtain ⟨-, rfl⟩ := Prod.mk.inj (Except.ok.inj h)
      exact m1
    · rename_i pos' y c2 h2
      have m2 := (advances_of_rangeEnd? h2).moves
      split at h
      · cases h
      · cases h
      · rename_i hi c3 h3
        split at h
        · obtain ⟨-, rfl⟩ := Prod.mk.inj (Except.ok.inj h)
          exact m1.trans (m2.trans (moves_of_classAtom h3))
        · cases h

/-- Reads items into `chars` up to the closing bracket of the class opened at `opened`. -/
def classItems (opened : Nat) (chars : CharSet) (c : Cursor) : Except Error (CharSet × Cursor) :=
  match h : c.next? with
  | none => .error ⟨.mismatchedBrackets, opened⟩
  | some (x, c₁) =>
    if x = ']' then .ok (chars, c₁)
    else
      match h' : classItem chars c.pos x c₁ with
      | .error e => .error e
      | .ok (chars, c₂) =>
        have := ((Cursor.advances_of_next? h).trans_moves (moves_of_classItem h')).length_lt
        classItems opened chars c₂
termination_by c.rest.length

theorem advances_of_classItems {opened : Nat} {chars chars' : CharSet} {c c' : Cursor}
    (h : classItems opened chars c = .ok (chars', c')) : c.Advances c' := by
  fun_induction classItems opened chars c with
  | case1 => cases h
  | case2 chars c c₁ h₁ =>
    obtain ⟨-, rfl⟩ := Prod.mk.inj (Except.ok.inj h)
    exact Cursor.advances_of_next? h₁
  | case3 => cases h
  | case4 _ _ _ _ h₁ _ _ _ h₂ _ ih =>
    exact ((Cursor.advances_of_next? h₁).trans_moves (moves_of_classItem h₂)).trans (ih h)

/-- The cursor behind a leading `^`, and whether there was one. -/
def negation (c : Cursor) : Bool × Cursor :=
  match c.next? with
  | some ('^', c₁) => (true, c₁)
  | _ => (false, c)

/-- Refuses the class opened at `opened` if no character is in it. -/
def nonEmpty (opened : Nat) (chars : CharSet) (c : Cursor) : Except Error (CharSet × Cursor) :=
  if chars.isEmpty then .error ⟨.emptyClass, opened⟩ else .ok (chars, c)

theorem cursor_of_nonEmpty {opened : Nat} {chars chars' : CharSet} {c c' : Cursor}
    (h : nonEmpty opened chars c = .ok (chars', c')) : c' = c := by
  unfold nonEmpty at h
  split at h
  · cases h
  · exact (Prod.mk.inj (Except.ok.inj h)).2.symm

/-- Reads the class whose `[` stands at `opened`, just before `c`. -/
def charClass (opened : Nat) (c : Cursor) : Except Error (CharSet × Cursor) :=
  let (negated, c) := negation c
  match c.next? with
  | none => .error ⟨.mismatchedBrackets, opened⟩
  | some (x, c₁) =>
    match classItem .empty c.pos x c₁ with
    | .error e => .error e
    | .ok (chars, c₂) =>
      match classItems opened chars c₂ with
      | .error e => .error e
      | .ok (chars, c₃) =>
        nonEmpty opened (if negated then chars.complement else chars) c₃

theorem moves_negation (c : Cursor) : c.Moves (negation c).2 := by
  unfold negation
  split
  · rename_i c₁ h
    exact (Cursor.advances_of_next? h).moves
  · exact Cursor.Moves.refl c

theorem advances_of_charClass {opened : Nat} {chars : CharSet} {c c' : Cursor}
    (h : charClass opened c = .ok (chars, c')) : c.Advances c' := by
  simp only [charClass] at h
  split at h
  · cases h
  · rename_i x c₁ h₁
    split at h
    · cases h
    · rename_i chars₁ c₂ h₂
      split at h
      · cases h
      · rename_i chars₂ c₃ h₃
        have steps := (moves_negation c).trans_advances ((Cursor.advances_of_next? h₁).trans_moves
          ((moves_of_classItem h₂).trans (advances_of_classItems h₃).moves))
        rwa [cursor_of_nonEmpty h]

end LexerGen.Regex
