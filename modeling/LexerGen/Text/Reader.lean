import LexerGen.Text.Cursor

/-! Readers: functions from a cursor to a value and the cursor behind what they read, or to an
error. That a reader never goes backward is part of the type, so it holds of everything that is
composed of readers, and loops over readers end. -/

namespace LexerGen.Text

structure Reader (ε α : Type) where
  run : Cursor → Except ε (α × Cursor)
  moves : ∀ {c c' : Cursor} {a : α}, run c = .ok (a, c') → c.Moves c'

namespace Reader

variable {ε α β : Type}

protected def pure (a : α) : Reader ε α where
  run c := .ok (a, c)
  moves h := (Prod.mk.inj (Except.ok.inj h)).2 ▸ Cursor.Moves.refl _

protected def bind (r : Reader ε α) (f : α → Reader ε β) : Reader ε β where
  run c :=
    match r.run c with
    | .error e => .error e
    | .ok (a, c) => (f a).run c
  moves {c c' b} h := by
    split at h
    · cases h
    · rename_i h₁
      exact (r.moves h₁).trans ((f _).moves h)

instance : Monad (Reader ε) where
  pure := Reader.pure
  bind := Reader.bind

@[simp] theorem run_pure (a : α) (c : Cursor) : (pure a : Reader ε α).run c = .ok (a, c) := rfl

theorem run_bind (r : Reader ε α) (f : α → Reader ε β) (c : Cursor) :
    (r >>= f).run c =
      match r.run c with
      | .error e => .error e
      | .ok (a, c) => (f a).run c := rfl

theorem run_bind_ok {r : Reader ε α} {f : α → Reader ε β} {c c' : Cursor} {a : α}
    (h : r.run c = .ok (a, c')) : (r >>= f).run c = (f a).run c' := by
  rw [run_bind, h]

theorem run_bind_error {r : Reader ε α} {f : α → Reader ε β} {c : Cursor} {e : ε}
    (h : r.run c = .error e) : (r >>= f).run c = .error e := by
  rw [run_bind, h]

/-- Fails with the error that `e` gives for the place. -/
def fail (e : Cursor → ε) : Reader ε α where
  run c := .error (e c)
  moves h := by cases h

/-- The place, without reading anything. -/
def here : Reader ε Cursor where
  run c := .ok (c, c)
  moves h := (Prod.mk.inj (Except.ok.inj h)).2 ▸ Cursor.Moves.refl _

/-- The longest run of characters with `p`, which may be empty. -/
def takeWhile (p : Char → Bool) : Reader ε (List Char) where
  run c := .ok (c.takeWhile p)
  moves {c c' a} h := by
    have := Cursor.moves_takeWhile p c
    rwa [Except.ok.inj h] at this

/-- The next character if it has `p`, otherwise the error that `e` gives for the place. -/
def satisfy (p : Char → Bool) (e : Cursor → ε) : Reader ε Char where
  run c :=
    match c.next? with
    | none => .error (e c)
    | some (x, c₁) => if p x then .ok (x, c₁) else .error (e c)
  moves {c c' x} h := by
    split at h
    · cases h
    · rename_i h₁
      split at h
      · obtain ⟨-, rfl⟩ := Prod.mk.inj (Except.ok.inj h)
        exact (Cursor.advances_of_next? h₁).moves
      · cases h

/-- The text `word`, otherwise the error that `e` gives for the place. -/
def exactly (word : List Char) (e : Cursor → ε) : Reader ε Unit where
  run c :=
    match c.skip? word with
    | none => .error (e c)
    | some c₁ => .ok ((), c₁)
  moves {c c' x} h := by
    split at h
    · cases h
    · rename_i h₁
      obtain ⟨-, rfl⟩ := Prod.mk.inj (Except.ok.inj h)
      exact ⟨word, Cursor.reads_of_skip? h₁⟩

/-- What `r` reads, or `none` without reading anything where `r` fails. -/
def optional (r : Reader ε α) : Reader ε (Option α) where
  run c :=
    match r.run c with
    | .error _ => .ok (none, c)
    | .ok (a, c) => .ok (some a, c)
  moves {c c' x} h := by
    split at h
    · obtain ⟨-, rfl⟩ := Prod.mk.inj (Except.ok.inj h)
      exact Cursor.Moves.refl _
    · rename_i h₁
      obtain ⟨-, rfl⟩ := Prod.mk.inj (Except.ok.inj h)
      exact r.moves h₁

/-- The reader never succeeds without reading a character. -/
def Consumes (r : Reader ε α) : Prop :=
  ∀ ⦃c c' : Cursor⦄ ⦃a : α⦄, r.run c = .ok (a, c') → c.Advances c'

theorem Consumes.bind {r : Reader ε α} (h : r.Consumes) (f : α → Reader ε β) :
    (r >>= f).Consumes := by
  intro c c' b hb
  rw [run_bind] at hb
  split at hb
  · cases hb
  · rename_i h₁
    exact (h h₁).trans_moves ((f _).moves hb)

theorem consumes_bind (r : Reader ε α) {f : α → Reader ε β} (h : ∀ a, (f a).Consumes) :
    (r >>= f).Consumes := by
  intro c c' b hb
  rw [run_bind] at hb
  split at hb
  · cases hb
  · rename_i h₁
    exact (r.moves h₁).trans_advances (h _ hb)

theorem consumes_satisfy (p : Char → Bool) (e : Cursor → ε) : (satisfy p e).Consumes := by
  intro c c' x h
  simp only [satisfy] at h
  split at h
  · cases h
  · rename_i h₁
    split at h
    · obtain ⟨-, rfl⟩ := Prod.mk.inj (Except.ok.inj h)
      exact Cursor.advances_of_next? h₁
    · cases h

theorem consumes_fail (e : Cursor → ε) : (fail e : Reader ε α).Consumes := by
  intro c c' x h
  cases h

end Reader

end LexerGen.Text
