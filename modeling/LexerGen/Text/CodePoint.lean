import LexerGen.Text.Cursor
import LexerGen.Text.Digit
import LexerGen.Text.Scalar

/-! Code points written in hexadecimal between braces, as escapes have them. -/

namespace LexerGen.Text

/-- Reads up to `room` more hexadecimal digits and the closing brace. `value` is the number written
so far, if any digit was. -/
def bracedDigits? (room : Nat) (value : Option Nat) (c : Cursor) : Option (Nat × Cursor) :=
  match c.next? with
  | none => none
  | some (x, c) =>
    if x = '\x7d' then value.map (·, c)
    else
      match room, hexDigit? x with
      | room + 1, some digit => bracedDigits? room (some (value.getD 0 * 16 + digit)) c
      | _, _ => none

/-- Reads one to six hexadecimal digits in braces, which must be the code point of a character. -/
def bracedCodePoint? (c : Cursor) : Option (Char × Cursor) := do
  let (x, c) ← c.next?
  guard (x = '\x7b')
  let (value, c) ← bracedDigits? 6 none c
  let char ← scalar? value
  return (char, c)

theorem advances_of_bracedDigits? {room n : Nat} {value : Option Nat} {c c' : Cursor}
    (h : bracedDigits? room value c = some (n, c')) : c.Advances c' := by
  induction room generalizing value c with
  | zero =>
    rw [bracedDigits?] at h
    split at h
    · simp at h
    · rename_i x c1 h1
      split at h
      · obtain ⟨_, _, h2⟩ := Option.map_eq_some_iff.1 h
        obtain ⟨-, rfl⟩ := Prod.mk.inj h2
        exact Cursor.advances_of_next? h1
      · simp at h
  | succ room ih =>
    rw [bracedDigits?] at h
    split at h
    · simp at h
    · rename_i x c1 h1
      split at h
      · obtain ⟨_, _, h2⟩ := Option.map_eq_some_iff.1 h
        obtain ⟨-, rfl⟩ := Prod.mk.inj h2
        exact Cursor.advances_of_next? h1
      · split at h
        · rename_i heq _
          obtain rfl := Nat.succ.inj heq
          exact (Cursor.advances_of_next? h1).trans (ih h)
        · simp at h

theorem advances_of_bracedCodePoint? {c c' : Cursor} {x : Char}
    (h : bracedCodePoint? c = some (x, c')) : c.Advances c' := by
  obtain ⟨⟨y, c1⟩, h1, h⟩ := Option.bind_eq_some_iff.1 h
  obtain ⟨_, _, h⟩ := Option.bind_eq_some_iff.1 h
  obtain ⟨⟨n, c2⟩, h2, h⟩ := Option.bind_eq_some_iff.1 h
  obtain ⟨_, _, h⟩ := Option.bind_eq_some_iff.1 h
  obtain ⟨-, rfl⟩ := Prod.mk.inj (Option.some.inj h)
  exact (Cursor.advances_of_next? h1).trans (advances_of_bracedDigits? h2)

end LexerGen.Text
