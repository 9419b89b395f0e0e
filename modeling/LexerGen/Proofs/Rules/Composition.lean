import LexerGen.Proofs.Rules.Derivation

/-! Rule files one behind the other. No declaration depends on what follows it, and a line end
closes a comment that a file leaves open, so a second file behind a line end is read as if it stood
alone. Only the places move: by the bytes of the first file and the line end. -/

namespace LexerGen

open Text Reader

/-! ### Places further on -/

/-- The place `n` bytes further on. -/
def Text.Span.shift (n : Nat) (s : Span) : Span := ⟨s.start + n, s.stop + n⟩

/-- The same text, starting `n` bytes further on. -/
def Text.Cursor.shift (n : Nat) (c : Cursor) : Cursor := ⟨c.pos + n, c.rest⟩

def RuleKind.shift (n : Nat) : RuleKind → RuleKind
  | .pattern tag body span => .pattern tag body (span.shift n)
  | .keywords entries => .keywords entries
  | .ignore tags => .ignore tags
  | .userCode tag body => .userCode tag body
  | .endOfFile => .endOfFile

def Declaration.shift (n : Nat) (d : Declaration) : Declaration := ⟨d.kind.shift n, d.span.shift n⟩

def RuleError.shift (n : Nat) : RuleError → RuleError
  | .missing expected pos => .missing expected (pos + n)
  | .expectedFound expected found pos => .expectedFound expected found (pos + n)
  | .unexpected found pos => .unexpected found (pos + n)
  | .invalidLabel label span => .invalidLabel label (span.shift n)
  | .unterminated start stop => .unterminated (start + n) (stop + n)

def DiagnosticLabel.shift (n : Nat) (l : DiagnosticLabel) : DiagnosticLabel :=
  { l with span := l.span.shift n }

namespace RuleError

theorem message_shift (n : Nat) (e : RuleError) : (e.shift n).message = e.message := by
  cases e <;> rfl

theorem span_shift (n : Nat) (e : RuleError) : (e.shift n).span = e.span.shift n := by
  cases e <;> simp [RuleError.shift, span, Span.shift, Span.point, Span.ofChar, Nat.add_right_comm]

/-- A report about a shifted error says the same of the shifted places. -/
theorem diagnostic_shift (n : Nat) (e : RuleError) : (e.shift n).diagnostic =
    { e.diagnostic with labels := e.diagnostic.labels.map (DiagnosticLabel.shift n) } := by
  have hmessage := message_shift n e
  have hspan := span_shift n e
  cases e <;> simp only [RuleError.shift] at hmessage hspan ⊢ <;>
    simp only [diagnostic, hmessage, hspan, List.map_cons, List.map_nil, DiagnosticLabel.shift]
  -- The second label of a body without an end names a place of its own.
  rfl

end RuleError

namespace Rules

open Grammar

section

variable {α β : Type}

/-- What reading gives `n` bytes further on, where `f` shifts what was read. -/
def shiftResult (n : Nat) (f : α → α) :
    Except RuleError (α × Cursor) → Except RuleError (α × Cursor)
  | .error e => .error (e.shift n)
  | .ok (a, c) => .ok (f a, c.shift n)

/-- What `r` reads at `c` is what `r'` reads `n` bytes further on, up to the shift. -/
def ShiftsAt (n : Nat) (f : α → α) (c : Cursor) (r r' : RuleReader α) : Prop :=
  r'.run (c.shift n) = shiftResult n f (r.run c)

variable {n : Nat} {c : Cursor}

theorem ShiftsAt.bind {f : α → α} {g : β → β} {r r' : RuleReader α} {k k' : α → RuleReader β}
    (h : ShiftsAt n f c r r')
    (hk : ∀ a c₁, r.run c = .ok (a, c₁) → ShiftsAt n g c₁ (k a) (k' (f a))) :
    ShiftsAt n g c (r >>= k) (r' >>= k') := by
  unfold ShiftsAt at h ⊢
  rw [run_bind, run_bind, h]
  cases hr : r.run c with
  | error e => rfl
  | ok p => exact hk p.1 p.2 hr

theorem shiftsAt_pure (f : α → α) (a : α) : ShiftsAt n f c (pure a) (pure (f a)) := rfl

theorem shiftsAt_here : ShiftsAt n (Cursor.shift n) c here here := rfl

end

section

variable {n : Nat} {c : Cursor}

theorem skipFrom_shift (n : Nat) (comment : Bool) (pos : Nat) (cs : List Char) :
    skipFrom comment (pos + n) cs = (skipFrom comment pos cs).shift n := by
  induction cs generalizing comment pos with
  | nil => rfl
  | cons x rest ih =>
    simp only [skipFrom, Nat.add_right_comm pos n, ih]
    split_ifs <;> rfl

theorem skipped_shift (n : Nat) (c : Cursor) : skipped (c.shift n) = (skipped c).shift n :=
  skipFrom_shift n false c.pos c.rest

theorem shiftsAt_skip : ShiftsAt n id c skip skip :=
  congrArg (fun c' => Except.ok ((), c')) (skipped_shift n c)

theorem expected_shift (n : Nat) (what : String) (c : Cursor) :
    RuleError.expected what (c.shift n) = (RuleError.expected what c).shift n := by
  have hpeek : (c.shift n).peek? = c.peek? := rfl
  unfold RuleError.expected
  rw [hpeek]
  cases c.peek? <;> rfl

theorem next?_shift (n : Nat) (c : Cursor) :
    (c.shift n).next? = c.next?.map fun (x, c') => (x, c'.shift n) := by
  obtain ⟨pos, rest⟩ := c
  cases rest with
  | nil => rfl
  | cons x rest => simp [Cursor.shift, Cursor.next?, Nat.add_right_comm]

theorem shiftsAt_satisfy (p : Char → Bool) (what : String) :
    ShiftsAt n id c (satisfy p (RuleError.expected what))
      (satisfy p (RuleError.expected what)) := by
  simp only [ShiftsAt, satisfy, next?_shift, expected_shift]
  cases c.next? with
  | none => rfl
  | some q =>
    simp only [Option.map_some]
    split <;> rfl

theorem shiftsAt_takeWhile (p : Char → Bool) : ShiftsAt n id c (takeWhile p) (takeWhile p) := by
  simp [ShiftsAt, takeWhile, shiftResult, Cursor.takeWhile, Cursor.shift, Nat.add_right_comm]

theorem shiftsAt_expect (x : Char) : ShiftsAt n id c (expect x) (expect x) :=
  shiftsAt_skip.bind fun _ _ _ => (shiftsAt_satisfy _ _).bind fun _ _ _ => shiftsAt_pure id ()

theorem shiftsAt_name : ShiftsAt n id c name name :=
  shiftsAt_skip.bind fun _ _ _ => (shiftsAt_satisfy _ _).bind fun x _ _ =>
    (shiftsAt_takeWhile _).bind fun xs _ _ => shiftsAt_pure id (x :: xs)

theorem shiftsAt_word : ShiftsAt n id c word word :=
  shiftsAt_skip.bind fun _ _ _ => (shiftsAt_satisfy _ _).bind fun x _ _ =>
    (shiftsAt_takeWhile _).bind fun xs _ _ => shiftsAt_pure id (x :: xs)

/-! ### Bodies -/

def Body.shift (n : Nat) (b : Body) : Body := ⟨b.text, b.stop + n⟩

theorem bodyFrom_shift (n : Nat) (seen : List Char) (pos : Nat) (cs : List Char) :
    bodyFrom seen (pos + n) cs =
      (bodyFrom seen pos cs).map fun (b, c) => (b.shift n, c.shift n) := by
  fun_induction bodyFrom seen pos cs with
  | case1 => rfl
  | case2 seen pos rest ih => rw [bodyFrom, Nat.add_right_comm, ih]
  | case3 seen pos rest =>
    rw [bodyFrom, Nat.add_right_comm]
    rfl
  | case4 seen pos x rest hescaped hx ih =>
    rw [bodyFrom, Nat.add_right_comm, ih]
    · exact hescaped
    · exact hx

theorem shiftsAt_body : ShiftsAt n (Body.shift n) c body body := by
  simp only [ShiftsAt, body, Cursor.shift, bodyFrom_shift]
  cases bodyFrom [] c.pos c.rest with
  | none => simp [shiftResult, RuleError.shift, Nat.add_right_comm]
  | some r => rfl

/-! ### Lists -/

theorem shiftsAt_keywordEntry : ShiftsAt n id c keywordEntry keywordEntry :=
  shiftsAt_name.bind fun _ _ _ => (shiftsAt_expect _).bind fun _ _ _ =>
    shiftsAt_word.bind fun _ _ _ => shiftsAt_pure id _

theorem shiftsAt_ignoreEntry : ShiftsAt n id c ignoreEntry ignoreEntry :=
  shiftsAt_name.bind fun _ _ _ => shiftsAt_pure id _

theorem shiftsAt_separator : ShiftsAt n id c separator separator :=
  shiftsAt_skip.bind fun _ _ _ => shiftsAt_satisfy _ _

theorem shiftsAt_entries {α : Type} {entry : RuleReader α}
    (hentry : ∀ c, ShiftsAt n id c entry entry) :
    ShiftsAt n id c (entries entry) (entries entry) := by
  -- A comma is read before the rest of the list.
  induction hlength : c.rest.length using Nat.strong_induction_on generalizing c with
  | _ k ih =>
    by_cases hopen : (skipped c).peek? = some '\x7d'
    · have hclose : (skipped (c.shift n)).peek? = some '\x7d' := by
        rw [skipped_shift]
        exact hopen
      rw [ShiftsAt, run_entries_of_close hopen, run_entries_of_close hclose, skipped_shift]
      simp [shiftResult, Cursor.shift, Nat.add_right_comm]
    · have hopen' : (skipped (c.shift n)).peek? ≠ some '\x7d' := by
        rw [skipped_shift]
        exact hopen
      rw [ShiftsAt, run_entries_of_open hopen, run_entries_of_open hopen']
      refine (hentry c).bind fun a c₁ ha => shiftsAt_separator.bind fun x c₂ hx => ?_
      have hlt := ((entry.moves ha).trans_advances (consumes_separator hx)).length_lt
      rw [id_eq]
      split
      · exact (ih _ (by omega) rfl).bind fun as _ _ => shiftsAt_pure id (a :: as)
      · exact shiftsAt_pure id [a]

theorem shiftsAt_braced {α : Type} {entry : RuleReader α}
    (hentry : ∀ c, ShiftsAt n id c entry entry) : ShiftsAt n id c (braced entry) (braced entry) :=
  (shiftsAt_expect _).bind fun _ _ _ => shiftsAt_entries hentry

/-! ### Declarations -/

theorem shiftsAt_pattern : ShiftsAt n (RuleKind.shift n) c pattern pattern :=
  shiftsAt_name.bind fun _ _ _ => (shiftsAt_expect _).bind fun _ _ _ =>
    shiftsAt_skip.bind fun _ _ _ => shiftsAt_here.bind fun _ _ _ =>
      shiftsAt_body.bind fun _ _ _ => shiftsAt_pure (RuleKind.shift n) _

theorem shiftsAt_labelled (label : List Char) (span : Span) :
    ShiftsAt n (RuleKind.shift n) c (labelled label span) (labelled label (span.shift n)) := by
  unfold labelled
  split_ifs
  · exact (shiftsAt_expect _).bind fun _ _ _ =>
      (shiftsAt_braced fun _ => shiftsAt_keywordEntry).bind fun _ _ _ =>
        (shiftsAt_expect _).bind fun _ _ _ => shiftsAt_pure (RuleKind.shift n) _
  · exact (shiftsAt_expect _).bind fun _ _ _ =>
      (shiftsAt_braced fun _ => shiftsAt_ignoreEntry).bind fun _ _ _ =>
        (shiftsAt_expect _).bind fun _ _ _ => shiftsAt_pure (RuleKind.shift n) _
  · exact (shiftsAt_expect _).bind fun _ _ _ => shiftsAt_name.bind fun _ _ _ =>
      (shiftsAt_expect _).bind fun _ _ _ => shiftsAt_body.bind fun _ _ _ =>
        shiftsAt_pure (RuleKind.shift n) _
  · rfl

theorem shiftsAt_bracketed : ShiftsAt n (RuleKind.shift n) c bracketed bracketed :=
  (shiftsAt_expect _).bind fun _ _ _ => shiftsAt_skip.bind fun _ _ _ =>
    shiftsAt_here.bind fun _ _ _ => shiftsAt_name.bind fun _ _ _ =>
      shiftsAt_here.bind fun _ _ _ => shiftsAt_labelled _ _

theorem shiftsAt_statement (x : Char) :
    ShiftsAt n (RuleKind.shift n) c (statement x) (statement x) := by
  unfold statement
  split_ifs
  · exact shiftsAt_pattern
  · exact shiftsAt_bracketed
  · rfl

theorem shiftsAt_declaration : ShiftsAt n (Declaration.shift n) c declaration declaration := by
  refine shiftsAt_skip.bind fun _ _ _ => shiftsAt_here.bind fun start _ _ => ?_
  have hpeek : (start.shift n).peek? = start.peek? := rfl
  rw [hpeek]
  cases start.peek? with
  | none => exact shiftsAt_pure (Declaration.shift n) _
  | some x =>
    exact (shiftsAt_statement x).bind fun _ _ _ => shiftsAt_here.bind fun _ _ _ =>
      shiftsAt_pure (Declaration.shift n) _

end

/-! ### Files -/

theorem isEnd_shift (n : Nat) (d : Declaration) : (d.shift n).isEnd = d.isEnd := by
  obtain ⟨kind, span⟩ := d
  cases kind <;> rfl

/-- The declarations of a file, or its error, `n` bytes further on. -/
def shiftFile (n : Nat) : Except RuleError (List Declaration) → Except RuleError (List Declaration)
  | .error e => .error (e.shift n)
  | .ok ds => .ok (ds.map (Declaration.shift n))

theorem declarationsFrom_shift (n : Nat) (c : Cursor) :
    declarationsFrom (c.shift n) = shiftFile n (declarationsFrom c) := by
  induction hlength : c.rest.length using Nat.strong_induction_on generalizing c with
  | _ k ih =>
    have hshift : declaration.run (c.shift n) =
        shiftResult n (Declaration.shift n) (declaration.run c) := shiftsAt_declaration
    rw [declarationsFrom_eq, declarationsFrom_eq c, hshift]
    cases hd : declaration.run c with
    | error e => rfl
    | ok p =>
      obtain ⟨d, c'⟩ := p
      simp only [shiftResult, isEnd_shift]
      cases hend : d.isEnd with
      | true => rfl
      | false =>
        have hlt := (advances_of_declaration hd hend).length_lt
        rw [ih _ (by omega) c' rfl]
        cases declarationsFrom c' <;> rfl

/-- Only what stands behind a gap matters to what is read. -/
theorem declarationsFrom_gap {g : List Char} (hg : Gap g) (pos : Nat) (rest : List Char) :
    declarationsFrom ⟨pos, g ++ rest⟩ = declarationsFrom ⟨pos + byteLength g, rest⟩ := by
  have hdeclaration : declaration.run ⟨pos, g ++ rest⟩ =
      declaration.run ⟨pos + byteLength g, rest⟩ := by
    rw [declaration, run_skip_bind, run_skip_bind, skipped_gap hg]
  rw [declarationsFrom_eq, declarationsFrom_eq ⟨pos + byteLength g, rest⟩, hdeclaration]

/-- Behind a file and a line end, reading starts anew. -/
theorem declarationsFrom_append {pos : Nat} {a : List Char} {ds : List Declaration}
    (h : File pos a ds) (b : List Char) :
    declarationsFrom ⟨pos, a ++ '\n' :: b⟩ =
      (declarationsFrom ⟨pos + (byteLength a + 1), b⟩).map (ds ++ ·) := by
  induction h with
  | @done pos g hg =>
    have hgap := declarationsFrom_gap hg.newline pos b
    have hbytes : byteLength (g ++ ['\n']) = byteLength g + 1 := byteLength_append g ['\n']
    rw [List.append_assoc, hbytes] at hgap
    refine hgap.trans ?_
    cases declarationsFrom ⟨pos + (byteLength g + 1), b⟩ <;> rfl
  | @more pos g t rest kind ds hg ht _ ih =>
    have htext : g ++ (t ++ rest) ++ '\n' :: b = g ++ t ++ (rest ++ '\n' :: b) := by simp
    have hpos : pos + byteLength g + byteLength t + (byteLength rest + 1) =
        pos + (byteLength (g ++ (t ++ rest)) + 1) := by
      simp only [byteLength_append]
      omega
    rw [htext, declarationsFrom_statement hg ht, byteLength_append g t, ← Nat.add_assoc, ih, hpos]
    cases declarationsFrom ⟨pos + (byteLength (g ++ (t ++ rest)) + 1), b⟩ <;> rfl

/-- A rule file behind another one and a line end is read as it is read alone, with all places
shifted by the bytes before it, and what is reported of an error is the same of the shifted
places. -/
theorem parse_append_newline {a : String} {ds : List Declaration} (h : parse a = .ok ds)
    (b : String) :
    (parse (a ++ "\n" ++ b) =
      match parse b with
      | .ok ds' => .ok (ds ++ ds'.map (Declaration.shift (byteLength a.toList + 1)))
      | .error e => .error (e.shift (byteLength a.toList + 1))) ∧
    ∀ e, parse b = .error e → ∃ e', parse (a ++ "\n" ++ b) = .error e' ∧
      e'.diagnostic = { e.diagnostic with
        labels := e.diagnostic.labels.map (.shift (byteLength a.toList + 1)) } := by
  have hfile : File 0 a.toList ds := file_of_declarationsFrom h
  have htext : (a ++ "\n" ++ b).toList = a.toList ++ '\n' :: b.toList := by simp
  have happend : parse (a ++ "\n" ++ b) =
      (shiftFile (byteLength a.toList + 1) (parse b)).map (ds ++ ·) :=
    calc parse (a ++ "\n" ++ b)
      _ = declarationsFrom ⟨0, a.toList ++ '\n' :: b.toList⟩ := by rw [parse, htext, Cursor.start]
      _ = (declarationsFrom (.shift (byteLength a.toList + 1) (.start b.toList))).map (ds ++ ·) :=
        declarationsFrom_append hfile b.toList
      _ = (shiftFile (byteLength a.toList + 1) (parse b)).map (ds ++ ·) := by
        rw [declarationsFrom_shift, parse]
  refine ⟨?_, fun e he => ⟨e.shift (byteLength a.toList + 1), ?_, RuleError.diagnostic_shift _ e⟩⟩
  · rw [happend]
    cases parse b <;> rfl
  · rw [happend, he]
    rfl

/-- The first file ends inside a comment, and the second one breaks off. -/
theorem parse_append_newline_comment :
    parse "A:a$ # one" = .ok [⟨.pattern "A" "a" ⟨2, 3⟩, ⟨0, 4⟩⟩] ∧
    parse "B:" = .error (.unterminated 2 2) ∧
    parse ("A:a$ # one" ++ "\n" ++ "B:") = .error (.unterminated 13 13) ∧
    (RuleError.unterminated 13 13).diagnostic =
      { (RuleError.unterminated 2 2).diagnostic with
        labels := (RuleError.unterminated 2 2).diagnostic.labels.map (.shift 11) } := by
  have ha : parse "A:a$ # one" = .ok [⟨.pattern "A" "a" ⟨2, 3⟩, ⟨0, 4⟩⟩] := by decide +kernel
  have hb : parse "B:" = .error (.unterminated 2 2) := by decide +kernel
  obtain ⟨happend, hreport⟩ := parse_append_newline ha "B:"
  rw [hb] at happend
  obtain ⟨e, he, hdiagnostic⟩ := hreport _ hb
  obtain rfl := Except.error.inj (happend.symm.trans he)
  exact ⟨ha, hb, happend, hdiagnostic⟩

end Rules

end LexerGen
