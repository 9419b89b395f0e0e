import LexerGen.Text.Reader
import Mathlib.Data.List.TakeWhile

/-! What cursors and readers read, as equivalences. The text between two cursors can be cut
anywhere, and a sequence of readers succeeds just where its parts do, one behind the other. -/

namespace LexerGen.Text

namespace Cursor

theorem Reads.nil_iff {c c' : Cursor} : Reads c [] c' ↔ c' = c := by
  constructor
  · intro h
    cases c
    cases c'
    simpa [eq_comm, and_comm] using And.intro h.rest h.pos
  · rintro rfl
    exact .refl _

/-- What is read can be cut in two anywhere. -/
theorem Reads.append_iff {c c' : Cursor} {s t : List Char} :
    Reads c (s ++ t) c' ↔ ∃ c₁, Reads c s c₁ ∧ Reads c₁ t c' := by
  constructor
  · intro h
    refine ⟨⟨c.pos + byteLength s, t ++ c'.rest⟩, ⟨?_, rfl⟩, ⟨rfl, ?_⟩⟩
    · rw [h.rest, List.append_assoc]
    · rw [h.pos, byteLength_append, Nat.add_assoc]
  · rintro ⟨c₁, h, h'⟩
    exact h.trans h'

theorem Reads.cons_iff {c c' : Cursor} {x : Char} {t : List Char} :
    Reads c (x :: t) c' ↔ ∃ c₁, Reads c [x] c₁ ∧ Reads c₁ t c' := by
  rw [← List.singleton_append, Reads.append_iff]

/-- Reading a text leads to one place only. -/
theorem Reads.unique {c c' c'' : Cursor} {s : List Char} (h : Reads c s c') (h' : Reads c s c'') :
    c' = c'' := by
  have hrest := List.append_cancel_left (h.rest.symm.trans h'.rest)
  have hpos := h.pos.trans h'.pos.symm
  cases c'
  cases c''
  simp_all

/-- Only one text lies between two places. -/
theorem Reads.text_unique {c c' : Cursor} {s t : List Char} (h : Reads c s c') (h' : Reads c t c') :
    s = t := List.append_cancel_right (h.rest.symm.trans h'.rest)

theorem next?_eq_some_iff {c c' : Cursor} {x : Char} :
    c.next? = some (x, c') ↔ Reads c [x] c' := by
  refine ⟨reads_of_next?, fun h => ?_⟩
  have hnext : c.next? = some (x, ⟨c.pos + x.utf8Size, c'.rest⟩) := by
    rw [next?, show c.rest = x :: c'.rest from h.rest]
  rw [hnext, (reads_of_next? hnext).unique h]

/-- The next character does not have `p`. -/
def StopsAt (p : Char → Bool) (c : Cursor) : Prop := ∀ x, c.peek? = some x → p x = false

theorem Reads.stopsAt {p : Char → Bool} {c c' : Cursor} {x : Char} {t : List Char}
    (h : c.Reads (x :: t) c') (hx : p x = false) : c.StopsAt p := by
  intro y hy
  rw [peek?, h.rest] at hy
  rwa [← Option.some.inj hy]

/-- The longest run of characters with `p` is one that stops at a character without it. -/
theorem takeWhile_eq_iff {p : Char → Bool} {c c' : Cursor} {run : List Char} :
    c.takeWhile p = (run, c') ↔ Reads c run c' ∧ (∀ x ∈ run, p x = true) ∧ c'.StopsAt p := by
  constructor
  · intro h
    have hreads := reads_takeWhile p c
    rw [h] at hreads
    obtain ⟨rfl, rfl⟩ := Prod.mk.inj h
    refine ⟨hreads, fun x hx => List.mem_takeWhile_imp hx, fun x hx => ?_⟩
    have hhead := List.head?_dropWhile_not p c.rest
    rw [show (c.rest.dropWhile p).head? = some x from hx] at hhead
    simpa using hhead
  · rintro ⟨h, hrun, hstop⟩
    have hnone : c'.rest.takeWhile p = [] ∧ c'.rest.dropWhile p = c'.rest := by
      cases hrest : c'.rest with
      | nil => simp
      | cons x rest => simp [hstop x (by rw [peek?, hrest]; rfl)]
    have htake : c.rest.takeWhile p = run := by
      rw [h.rest, List.takeWhile_append_of_pos hrun, hnone.1, List.append_nil]
    have hdrop : c.rest.dropWhile p = c'.rest := by
      rw [h.rest, List.dropWhile_append_of_pos hrun, hnone.2]
    rw [takeWhile, htake, hdrop, ← h.pos]

end Cursor

namespace Reader

variable {ε α β : Type} {c c' : Cursor}

theorem run_bind_eq_ok_iff {r : Reader ε α} {f : α → Reader ε β} {b : β} :
    (r >>= f).run c = .ok (b, c') ↔
      ∃ a c₁, r.run c = .ok (a, c₁) ∧ (f a).run c₁ = .ok (b, c') := by
  rw [run_bind]
  cases hr : r.run c with
  | error e => simp
  | ok p =>
    obtain ⟨a, c₁⟩ := p
    constructor
    · intro h
      exact ⟨a, c₁, rfl, h⟩
    · rintro ⟨_, _, ⟨⟩, h⟩
      exact h

theorem run_pure_eq_ok_iff {a b : α} :
    (pure a : Reader ε α).run c = .ok (b, c') ↔ b = a ∧ c' = c := by
  simp [eq_comm]

theorem run_satisfy_eq_ok_iff {p : Char → Bool} {e : Cursor → ε} {x : Char} :
    (satisfy p e).run c = .ok (x, c') ↔ p x = true ∧ c.Reads [x] c' := by
  rw [← Cursor.next?_eq_some_iff]
  simp only [satisfy]
  cases hnext : c.next? with
  | none => simp
  | some q =>
    obtain ⟨y, c₁⟩ := q
    simp only [Option.some.injEq, Prod.mk.injEq]
    split
    · rename_i hp
      rw [Except.ok.injEq, Prod.mk.injEq, iff_and_self]
      rintro ⟨rfl, -⟩
      exact hp
    · rename_i hp
      refine iff_of_false (by simp) ?_
      rintro ⟨hx, rfl, -⟩
      exact hp hx

theorem run_satisfy_eq_error_iff {p : Char → Bool} {e : Cursor → ε} {e' : ε} :
    (satisfy p e).run c = .error e' ↔ c.StopsAt p ∧ e' = e c := by
  simp only [satisfy, Cursor.next?]
  cases hrest : c.rest with
  | nil =>
    have hstop : c.StopsAt p := by
      intro x hx
      rw [Cursor.peek?, hrest] at hx
      cases hx
    simp [hstop, eq_comm]
  | cons x rest =>
    have hstop : c.StopsAt p ↔ p x = false := by simp [Cursor.StopsAt, Cursor.peek?, hrest]
    cases hx : p x with
    | true => simp [hx, hstop]
    | false => simp [hx, hstop, eq_comm]

theorem run_takeWhile_eq_ok_iff {p : Char → Bool} {xs : List Char} :
    (takeWhile p : Reader ε (List Char)).run c = .ok (xs, c') ↔
      c.Reads xs c' ∧ (∀ x ∈ xs, p x = true) ∧ c'.StopsAt p := by
  rw [← Cursor.takeWhile_eq_iff, takeWhile, Except.ok.injEq]

theorem run_here_eq_ok_iff {c₁ : Cursor} :
    (here : Reader ε Cursor).run c = .ok (c₁, c') ↔ c₁ = c ∧ c' = c := by
  simp [here, eq_comm]

end Reader

end LexerGen.Text
