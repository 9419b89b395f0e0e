import LexerGen.Text.Utf8

/-! A cursor is the text still to be read together with the byte position where it starts. Readers
take a cursor and give back the cursor behind what they read; `Cursor.Reads` says which text lies
between the two. -/

namespace LexerGen.Text

structure Cursor where
  pos : Nat
  rest : List Char
deriving Repr, DecidableEq

namespace Cursor

/-- The cursor at the start of `cs`. -/
def start (cs : List Char) : Cursor := ⟨0, cs⟩

/-- The next character and the cursor behind it. -/
def next? (c : Cursor) : Option (Char × Cursor) :=
  match c.rest with
  | [] => none
  | x :: xs => some (x, ⟨c.pos + x.utf8Size, xs⟩)

/-- The next character. -/
def peek? (c : Cursor) : Option Char := c.rest.head?

/-- The longest run of characters with `p`, and the cursor behind it. -/
def takeWhile (p : Char → Bool) (c : Cursor) : List Char × Cursor :=
  let run := c.rest.takeWhile p
  (run, ⟨c.pos + byteLength run, c.rest.dropWhile p⟩)

/-- The cursor behind `word`, if the text goes on with it. -/
def skip? (word : List Char) (c : Cursor) : Option Cursor :=
  if word.isPrefixOf c.rest then
    some ⟨c.pos + byteLength word, c.rest.drop word.length⟩
  else none

/-- `c'` is the cursor behind `text`, which `c` starts with. -/
structure Reads (c : Cursor) (text : List Char) (c' : Cursor) : Prop where
  rest : c.rest = text ++ c'.rest
  pos : c'.pos = c.pos + byteLength text

theorem Reads.refl (c : Cursor) : Reads c [] c := ⟨rfl, rfl⟩

theorem Reads.trans {c c' c'' : Cursor} {s t : List Char} (h : Reads c s c') (h' : Reads c' t c'') :
    Reads c (s ++ t) c'' :=
  ⟨by rw [h.rest, h'.rest, List.append_assoc], by
    rw [h'.pos, h.pos, byteLength_append, Nat.add_assoc]⟩

theorem Reads.length {c c' : Cursor} {s : List Char} (h : Reads c s c') :
    c.rest.length = s.length + c'.rest.length := by
  rw [h.rest, List.length_append]

theorem next?_eq_none {c : Cursor} : c.next? = none ↔ c.rest = [] := by
  unfold next?
  split <;> simp_all

theorem reads_of_next? {c c' : Cursor} {x : Char} (h : c.next? = some (x, c')) :
    Reads c [x] c' := by
  unfold next? at h
  split at h
  · simp at h
  · rename_i y ys hrest
    obtain ⟨rfl, rfl⟩ := Prod.mk.inj (Option.some.inj h)
    exact ⟨by simp [hrest], by simp⟩

/-- `c'` is `c` or lies behind it in the same text. -/
def Moves (c c' : Cursor) : Prop := ∃ text, Reads c text c'

/-- `c'` lies at least one character behind `c` in the same text. -/
def Advances (c c' : Cursor) : Prop := ∃ text, text ≠ [] ∧ Reads c text c'

theorem Moves.refl (c : Cursor) : Moves c c := ⟨[], Reads.refl c⟩

theorem Moves.trans {c c' c'' : Cursor} (h : Moves c c') (h' : Moves c' c'') : Moves c c'' := by
  obtain ⟨s, hs⟩ := h
  obtain ⟨t, ht⟩ := h'
  exact ⟨s ++ t, hs.trans ht⟩

theorem Advances.moves {c c' : Cursor} (h : Advances c c') : Moves c c' := by
  obtain ⟨s, -, hs⟩ := h
  exact ⟨s, hs⟩

theorem Advances.trans_moves {c c' c'' : Cursor} (h : Advances c c') (h' : Moves c' c'') :
    Advances c c'' := by
  obtain ⟨s, hne, hs⟩ := h
  obtain ⟨t, ht⟩ := h'
  exact ⟨s ++ t, by simp [hne], hs.trans ht⟩

theorem Moves.trans_advances {c c' c'' : Cursor} (h : Moves c c') (h' : Advances c' c'') :
    Advances c c'' := by
  obtain ⟨s, hs⟩ := h
  obtain ⟨t, hne, ht⟩ := h'
  exact ⟨s ++ t, by simp [hne], hs.trans ht⟩

theorem Advances.trans {c c' c'' : Cursor} (h : Advances c c') (h' : Advances c' c'') :
    Advances c c'' := h.trans_moves h'.moves

theorem Advances.length_lt {c c' : Cursor} (h : Advances c c') :
    c'.rest.length < c.rest.length := by
  obtain ⟨s, hne, hs⟩ := h
  have := List.length_pos_iff.2 hne
  have := hs.length
  omega

theorem advances_of_next? {c c' : Cursor} {x : Char} (h : c.next? = some (x, c')) :
    Advances c c' := ⟨[x], by simp, reads_of_next? h⟩

theorem reads_takeWhile (p : Char → Bool) (c : Cursor) :
    Reads c (c.takeWhile p).1 (c.takeWhile p).2 :=
  ⟨by simp [takeWhile, List.takeWhile_append_dropWhile], rfl⟩

theorem moves_takeWhile (p : Char → Bool) (c : Cursor) : Moves c (c.takeWhile p).2 :=
  ⟨_, reads_takeWhile p c⟩

theorem reads_of_skip? {word : List Char} {c c' : Cursor} (h : c.skip? word = some c') :
    Reads c word c' := by
  unfold skip? at h
  split at h
  · rename_i hp
    obtain rfl := Option.some.inj h
    obtain ⟨t, ht⟩ := List.isPrefixOf_iff_prefix.1 hp
    exact ⟨by simp [← ht], rfl⟩
  · simp at h

end Cursor

end LexerGen.Text
