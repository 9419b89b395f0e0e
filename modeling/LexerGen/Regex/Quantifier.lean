import LexerGen.Limits
import LexerGen.Regex.Basic
import LexerGen.Text.Cursor
import LexerGen.Text.Digit

/-! Quantifiers: how often the expression before them may stand. -/

namespace LexerGen.Regex

open Text

structure Bounds where
  min : Nat
  /-- No upper bound if `none`. -/
  max : Option Nat
deriving Repr, DecidableEq

/-- Reads a count of the quantifier opened at `opened`, or `none` if no digit stands there. -/
def count (opened : Nat) (c : Cursor) : Except Error (Option Nat × Cursor) :=
  let (digits, c) := c.takeWhile isDecimalDigit
  if digits.isEmpty then .ok (none, c)
  else if Limits.maxRepeat < decimalValue digits then .error ⟨.exceedsLimits, opened⟩
  else .ok (some (decimalValue digits), c)

/-- Reads the closing brace of the quantifier opened at `opened`. -/
def closeBounds (opened : Nat) (bounds : Bounds) (c : Cursor) : Except Error (Bounds × Cursor) :=
  match c.next? with
  | none => .error ⟨.mismatchedBraces, opened⟩
  | some ('\x7d', c) =>
    if bounds.max.any (· < bounds.min) then .error ⟨.invalidRepeat, opened⟩ else .ok (bounds, c)
  | some _ => .error ⟨.invalidRepeat, opened⟩

/-- Reads the bounds behind the brace at `opened`: one count, a least count with a comma, or both
counts. -/
def bracedBounds (opened : Nat) (c : Cursor) : Except Error (Bounds × Cursor) :=
  match count opened c with
  | .error e => .error e
  | .ok (none, _) => .error ⟨.invalidRepeat, opened⟩
  | .ok (some min, c) =>
    match c.next? with
    | some (',', c₁) =>
      match count opened c₁ with
      | .error e => .error e
      | .ok (max, c₂) => closeBounds opened ⟨min, max⟩ c₂
    | _ => closeBounds opened ⟨min, some min⟩ c

def isQuantifierStart (x : Char) : Bool := x = '*' || x = '+' || x = '?' || x = '\x7b'

/-- Reads the bounds of the quantifier that starts with `x`, where `x` stands at `pos` and `c` is
the cursor behind it. -/
def bounds (pos : Nat) (x : Char) (c : Cursor) : Except Error (Bounds × Cursor) :=
  match x with
  | '*' => .ok (⟨0, none⟩, c)
  | '+' => .ok (⟨1, none⟩, c)
  | '?' => .ok (⟨0, some 1⟩, c)
  | _ => bracedBounds pos c

theorem moves_of_count {opened : Nat} {c c' : Cursor} {n : Option Nat}
    (h : count opened c = .ok (n, c')) : c.Moves c' := by
  simp only [count] at h
  split at h
  · obtain ⟨-, rfl⟩ := Prod.mk.inj (Except.ok.inj h)
    exact Cursor.moves_takeWhile _ c
  · split at h
    · cases h
    · obtain ⟨-, rfl⟩ := Prod.mk.inj (Except.ok.inj h)
      exact Cursor.moves_takeWhile _ c

theorem advances_of_closeBounds {opened : Nat} {b b' : Bounds} {c c' : Cursor}
    (h : closeBounds opened b c = .ok (b', c')) : c.Advances c' := by
  unfold closeBounds at h
  split at h
  · cases h
  · rename_i c₁ h₁
    split at h
    · cases h
    · obtain ⟨-, rfl⟩ := Prod.mk.inj (Except.ok.inj h)
      exact Cursor.advances_of_next? h₁
  · cases h

theorem advances_of_bracedBounds {opened : Nat} {b : Bounds} {c c' : Cursor}
    (h : bracedBounds opened c = .ok (b, c')) : c.Advances c' := by
  unfold bracedBounds at h
  split at h
  · cases h
  · cases h
  · rename_i min c₁ h₁
    have m₁ := moves_of_count h₁
    split at h
    · rename_i c₂ h₂
      split at h
      · cases h
      · rename_i max c₃ h₃
        exact m₁.trans_advances ((Cursor.advances_of_next? h₂).trans_moves
          ((moves_of_count h₃).trans (advances_of_closeBounds h).moves))
    · exact m₁.trans_advances (advances_of_closeBounds h)

theorem moves_of_bounds {pos : Nat} {x : Char} {c c' : Cursor} {b : Bounds}
    (h : bounds pos x c = .ok (b, c')) : c.Moves c' := by
  unfold bounds at h
  split at h
  case h_4 => exact (advances_of_bracedBounds h).moves
  all_goals
    obtain ⟨-, rfl⟩ := Prod.mk.inj (Except.ok.inj h)
    exact Cursor.Moves.refl c

end LexerGen.Regex
