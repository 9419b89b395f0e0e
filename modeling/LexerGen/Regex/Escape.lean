import LexerGen.CharSet
import LexerGen.Text.Alphanumeric
import LexerGen.Text.CodePoint

/-! Escapes of regular expressions. Every reader here starts behind the backslash, and fails in one
way only, so the error is left to the caller. -/

namespace LexerGen.Regex

open Text

/-- Reads two hexadecimal digits. -/
def hexPair? (c : Cursor) : Option (Char × Cursor) := do
  let (x, c) ← c.next?
  let high ← hexDigit? x
  let (y, c) ← c.next?
  let low ← hexDigit? y
  let char ← scalar? (high * 16 + low)
  return (char, c)

/-- Reads the escape behind a backslash. Letters and digits other than those listed have no meaning,
any other character means itself. -/
def escape? (c : Cursor) : Option (CharSet × Cursor) := do
  let (x, c) ← c.next?
  match x with
  | 'n' => some (.singleton '\n', c)
  | 't' => some (.singleton '\t', c)
  | 'r' => some (.singleton '\r', c)
  | 'f' => some (.singleton '\x0c', c)
  | 'v' => some (.singleton '\x0b', c)
  | '0' => some (.singleton '\x00', c)
  | 'x' => (hexPair? c).map fun (y, c) => (.singleton y, c)
  | 'u' => (bracedCodePoint? c).map fun (y, c) => (.singleton y, c)
  | 'd' => some (.digit, c)
  | 'D' => some (CharSet.digit.complement, c)
  | 'w' => some (.word, c)
  | 'W' => some (CharSet.word.complement, c)
  | 's' => some (.space, c)
  | 'S' => some (CharSet.space.complement, c)
  | x => if isAlphanumeric x then none else some (.singleton x, c)

theorem advances_of_hexPair? {c c' : Cursor} {x : Char} (h : hexPair? c = some (x, c')) :
    c.Advances c' := by
  simp only [hexPair?, Option.bind_eq_bind, Option.bind_eq_some_iff, Prod.exists] at h
  obtain ⟨y, c1, h1, _, _, z, c2, h2, _, _, _, _, h3⟩ := h
  obtain ⟨-, rfl⟩ := Prod.mk.inj (Option.some.inj h3)
  exact (Cursor.advances_of_next? h1).trans (Cursor.advances_of_next? h2)

theorem advances_of_escape? {c c' : Cursor} {s : CharSet} (h : escape? c = some (s, c')) :
    c.Advances c' := by
  simp only [escape?, Option.bind_eq_bind, Option.bind_eq_some_iff, Prod.exists] at h
  obtain ⟨x, c1, h1, h2⟩ := h
  have step := Cursor.advances_of_next? h1
  split at h2
  case h_7 =>
    obtain ⟨⟨y, c2⟩, h3, h4⟩ := Option.map_eq_some_iff.1 h2
    obtain ⟨-, rfl⟩ := Prod.mk.inj h4
    exact step.trans (advances_of_hexPair? h3)
  case h_8 =>
    obtain ⟨⟨y, c2⟩, h3, h4⟩ := Option.map_eq_some_iff.1 h2
    obtain ⟨-, rfl⟩ := Prod.mk.inj h4
    exact step.trans (advances_of_bracedCodePoint? h3)
  case h_15 =>
    split at h2
    · simp at h2
    · obtain ⟨-, rfl⟩ := Prod.mk.inj (Option.some.inj h2)
      exact step
  all_goals
    obtain ⟨-, rfl⟩ := Prod.mk.inj (Option.some.inj h2)
    exact step

end LexerGen.Regex
