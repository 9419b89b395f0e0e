import LexerGen.Source.Reader

/-! Readers on the texts that they are made for. A reader parses a text if it reads just that text
wherever it stands; sequences of readers parse the texts one after the other. -/

namespace LexerGen.Text.Reader

variable {ε α β : Type}

/-- Wherever `text` stands, `r` reads it and gives `a`. -/
def Parses (r : Reader ε α) (text : List Char) (a : α) : Prop :=
  ∀ (pos : Nat) (rest : List Char),
    r.run ⟨pos, text ++ rest⟩ = .ok (a, ⟨pos + byteLength text, rest⟩)

/-- Wherever `text` stands with `x` behind it, `r` reads it and gives `a`. -/
def ParsesBefore (r : Reader ε α) (text : List Char) (x : Char) (a : α) : Prop :=
  ∀ (pos : Nat) (rest : List Char),
    r.run ⟨pos, text ++ x :: rest⟩ = .ok (a, ⟨pos + byteLength text, x :: rest⟩)

/-- `r` fails before `x`. -/
def Refuses (r : Reader ε α) (x : Char) : Prop :=
  ∀ (pos : Nat) (rest : List Char), ∃ e, r.run ⟨pos, x :: rest⟩ = .error e

theorem Parses.before {r : Reader ε α} {s : List Char} {a : α} (h : r.Parses s a) (x : Char) :
    r.ParsesBefore s x a := fun pos rest => h pos (x :: rest)

theorem parses_pure (a : α) : (pure a : Reader ε α).Parses [] a := fun _ _ => rfl

theorem Parses.bind {r : Reader ε α} {f : α → Reader ε β} {s t : List Char} {a : α} {b : β}
    (h : r.Parses s a) (h' : (f a).Parses t b) : (r >>= f).Parses (s ++ t) b := by
  intro pos rest
  rw [List.append_assoc, run_bind_ok (h pos (t ++ rest)), h', byteLength_append, Nat.add_assoc]

theorem ParsesBefore.bind {r : Reader ε α} {f : α → Reader ε β} {s t : List Char} {x : Char} {a : α}
    {b : β} (h : r.ParsesBefore s x a) (h' : (f a).Parses (x :: t) b) :
    (r >>= f).Parses (s ++ x :: t) b := by
  intro pos rest
  rw [List.append_assoc, List.cons_append, run_bind_ok (h pos (t ++ rest)), ← List.cons_append, h',
    byteLength_append, Nat.add_assoc]

theorem Parses.bind_pure {r : Reader ε α} {s : List Char} {a : α} (h : r.Parses s a) (g : α → β) :
    (r >>= fun x => pure (g x)).Parses s (g a) := by
  have := h.bind (f := fun x => pure (g x)) (parses_pure (g a))
  rwa [List.append_nil] at this

theorem Refuses.bind {r : Reader ε α} {x : Char} (h : r.Refuses x) (f : α → Reader ε β) :
    (r >>= f).Refuses x := by
  intro pos rest
  obtain ⟨e, he⟩ := h pos rest
  exact ⟨e, run_bind_error he⟩

end LexerGen.Text.Reader

namespace LexerGen.Source

open Text Reader

variable {α β : Type}

theorem parses_char (x : Char) : (char x).Parses [x] () := by
  intro pos rest
  simp [char, run_bind, satisfy, Cursor.next?]

theorem refuses_char {x y : Char} (h : y ≠ x) : (char x).Refuses y := by
  intro pos rest
  refine ⟨pos, ?_⟩
  simp [char, run_bind, satisfy, Cursor.next?, h]

theorem parses_text (s : String) : (text s).Parses s.toList () := by
  intro pos rest
  simp [text, exactly, Cursor.skip?]

theorem refuses_text {s : String} {x y : Char} {rest : List Char} (hs : s.toList = x :: rest)
    (h : y ≠ x) : (text s).Refuses y := by
  intro pos rest'
  refine ⟨pos, ?_⟩
  simp [text, exactly, Cursor.skip?, hs, Ne.symm h]

/-! ### Blanks -/

/-- Nothing but blanks. -/
def Blanks (cs : List Char) : Prop := ∀ c ∈ cs, isSpace c = true

instance (cs : List Char) : Decidable (Blanks cs) :=
  decidable_of_iff (cs.all isSpace = true) List.all_eq_true

/-- `cs` starts with a character that is not blank. -/
def Solid (cs : List Char) : Prop := ∃ x rest, cs = x :: rest ∧ isSpace x = false

instance : (cs : List Char) → Decidable (Solid cs)
  | [] => isFalse fun ⟨_, _, h, _⟩ => by cases h
  | x :: rest =>
    decidable_of_iff (isSpace x = false)
      ⟨fun hx => ⟨x, rest, rfl, hx⟩, fun ⟨_, _, h, hx⟩ => by cases h; exact hx⟩

theorem run_lexeme (r : TableReader α) {blanks cs : List Char} (hb : Blanks blanks) (hs : Solid cs)
    (pos : Nat) :
    (lexeme r).run ⟨pos, blanks ++ cs⟩ = r.run ⟨pos + byteLength blanks, cs⟩ := by
  obtain ⟨x, rest, rfl, hx⟩ := hs
  have htake : (blanks ++ x :: rest).takeWhile isSpace = blanks := by
    rw [List.takeWhile_append_of_pos hb, List.takeWhile_cons_of_neg (by simp [hx]), List.append_nil]
  have hdrop : (blanks ++ x :: rest).dropWhile isSpace = x :: rest := by
    rw [List.dropWhile_append_of_pos hb, List.dropWhile_cons_of_neg (by simp [hx])]
  have hrun : (takeWhile isSpace : TableReader (List Char)).run ⟨pos, blanks ++ x :: rest⟩ =
      .ok (blanks, ⟨pos + byteLength blanks, x :: rest⟩) := by
    simp only [takeWhile, Cursor.takeWhile, htake, hdrop]
  exact run_bind_ok hrun

theorem Solid.append {s : List Char} (h : Solid s) (rest : List Char) : Solid (s ++ rest) := by
  obtain ⟨x, t, rfl, hx⟩ := h
  exact ⟨x, t ++ rest, rfl, hx⟩

theorem parses_lexeme {r : TableReader α} {blanks s : List Char} {a : α} (hb : Blanks blanks)
    (hs : Solid s) (h : r.Parses s a) : (lexeme r).Parses (blanks ++ s) a := by
  intro pos rest
  rw [List.append_assoc, run_lexeme r hb (hs.append rest), h, byteLength_append, Nat.add_assoc]

theorem parsesBefore_lexeme {r : TableReader α} {blanks s : List Char} {x : Char} {a : α}
    (hb : Blanks blanks) (hs : Solid s) (h : r.ParsesBefore s x a) :
    (lexeme r).ParsesBefore (blanks ++ s) x a := by
  intro pos rest
  rw [List.append_assoc, run_lexeme r hb (hs.append _), h, byteLength_append, Nat.add_assoc]

theorem lexeme_error {r : TableReader α} {blanks : List Char} {x : Char} (hb : Blanks blanks)
    (hx : isSpace x = false) (h : r.Refuses x) (pos : Nat) (rest : List Char) :
    ∃ e, (lexeme r).run ⟨pos, blanks ++ x :: rest⟩ = .error e := by
  rw [run_lexeme r hb ⟨x, rest, rfl, hx⟩]
  exact h _ rest

end LexerGen.Source
