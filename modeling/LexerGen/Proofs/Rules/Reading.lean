import LexerGen.Proofs.Rules.Grammar
import LexerGen.Proofs.Text.Reading

/-! Gaps, tokens, bodies and lists of rule files are read as the grammar has them: each reader
succeeds just on the texts of its part of the grammar, with a gap before them, and a token ends
where the next character does not continue it. -/

namespace LexerGen.Rules

open Text Reader Grammar

/-! ### Gaps -/

/-- The characters that a gap can start with. -/
def isGapStart (x : Char) : Bool := isSpace x || x = '#'

theorem isGapStart_eq_true_iff {x : Char} :
    isGapStart x = true ↔ x = ' ' ∨ x = '\t' ∨ x = '\r' ∨ x = '\n' ∨ x = '#' := by
  simp [isGapStart, isSpace, or_assoc]

theorem skipFrom_comment {line : List Char} (hline : '\n' ∉ line) (pos : Nat) (rest : List Char) :
    skipFrom true pos (line ++ '\n' :: rest) =
      skipFrom false (pos + byteLength (line ++ ['\n'])) rest := by
  induction line generalizing pos with
  | nil => simp [skipFrom]
  | cons x line ih =>
    obtain ⟨hx, hline⟩ := not_or.1 (mt List.mem_cons.2 hline)
    simp [skipFrom, Ne.symm hx, ih hline, Nat.add_assoc]

theorem skipFrom_lastComment {line : List Char} (hline : '\n' ∉ line) (pos : Nat) :
    skipFrom true pos line = ⟨pos + byteLength line, []⟩ := by
  induction line generalizing pos with
  | nil => rfl
  | cons x line ih =>
    obtain ⟨hx, hline⟩ := not_or.1 (mt List.mem_cons.2 hline)
    simp [skipFrom, Ne.symm hx, ih hline, Nat.add_assoc]

theorem skipFrom_hash (pos : Nat) (rest : List Char) :
    skipFrom false pos ('#' :: rest) = skipFrom true (pos + '#'.utf8Size) rest := by
  simp [skipFrom, isSpace]

theorem skipFrom_gap {g : List Char} (h : Gap g) (pos : Nat) (rest : List Char) :
    skipFrom false pos (g ++ rest) = skipFrom false (pos + byteLength g) rest := by
  induction h generalizing pos with
  | nil => rfl
  | space hx _ ih => simp [skipFrom, hx, ih, Nat.add_assoc]
  | @comment line g hline _ ih =>
    rw [List.cons_append, List.append_assoc, List.cons_append, skipFrom_hash,
      skipFrom_comment hline, ih]
    simp [Nat.add_assoc]

theorem skipFrom_solid {x : Char} (hx : isGapStart x = false) (pos : Nat) (rest : List Char) :
    skipFrom false pos (x :: rest) = ⟨pos, x :: rest⟩ := by
  simp only [isGapStart, Bool.or_eq_false_iff, decide_eq_false_iff_not] at hx
  simp [skipFrom, hx]

/-- The text goes on with a character that no gap starts with. -/
def Solid (cs : List Char) : Prop := ∃ x rest, cs = x :: rest ∧ isGapStart x = false

/-- The gap `g`, as far as it goes, before `rest`. -/
def WholeGap (g rest : List Char) : Prop := Gap g ∧ Solid rest ∨ LastGap g ∧ rest = []

theorem WholeGap.space {x : Char} {g rest : List Char} (hx : isSpace x = true)
    (h : WholeGap g rest) : WholeGap (x :: g) rest := by
  rcases h with ⟨hg, hrest⟩ | ⟨hg, hrest⟩
  · exact .inl ⟨.space hx hg, hrest⟩
  · refine .inr ⟨?_, hrest⟩
    cases hg with
    | gap hg => exact .gap (.space hx hg)
    | comment hg hline => exact .comment (.space hx hg) hline

theorem WholeGap.comment {line g rest : List Char} (hline : '\n' ∉ line) (h : WholeGap g rest) :
    WholeGap ('#' :: (line ++ '\n' :: g)) rest := by
  rcases h with ⟨hg, hrest⟩ | ⟨hg, hrest⟩
  · exact .inl ⟨.comment hline hg, hrest⟩
  · refine .inr ⟨?_, hrest⟩
    cases hg with
    | gap hg => exact .gap (.comment hline hg)
    | comment hg hlast => simpa using LastGap.comment (.comment hline hg) hlast

theorem Grammar.Gap.append {g h : List Char} (hg : Gap g) (hh : Gap h) : Gap (g ++ h) := by
  induction hg with
  | nil => exact hh
  | space hx _ ih => exact .space hx ih
  | comment hline _ ih => simpa using Gap.comment hline ih

/-- A line end closes the last comment. -/
theorem Grammar.LastGap.newline {g : List Char} (h : LastGap g) : Gap (g ++ ['\n']) := by
  cases h with
  | gap hg => exact hg.append (.space (by decide) .nil)
  | comment hg hline => simpa using hg.append (.comment hline .nil)

theorem exists_wholeGap (cs : List Char) : ∃ g rest, cs = g ++ rest ∧ WholeGap g rest := by
  -- A comment is taken off with its whole line, so the induction is on the length.
  induction hn : cs.length using Nat.strong_induction_on generalizing cs with
  | _ n ih =>
    cases cs with
    | nil => exact ⟨[], [], rfl, .inr ⟨.gap .nil, rfl⟩⟩
    | cons x cs =>
      rw [List.length_cons] at hn
      by_cases hgap : isGapStart x = true
      · rw [isGapStart, Bool.or_eq_true] at hgap
        rcases hgap with hspace | hhash
        · obtain ⟨g, rest, rfl, h⟩ := ih cs.length (by omega) cs rfl
          exact ⟨x :: g, rest, rfl, h.space hspace⟩
        · obtain rfl := of_decide_eq_true hhash
          by_cases hline : '\n' ∈ cs
          · obtain ⟨line, more, rfl, hfirst⟩ := List.eq_append_cons_of_mem hline
            rw [List.length_append, List.length_cons] at hn
            obtain ⟨g, rest, rfl, h⟩ := ih more.length (by omega) more rfl
            exact ⟨'#' :: (line ++ '\n' :: g), rest, by simp, h.comment hfirst⟩
          · exact ⟨'#' :: cs, [], by simp, .inr ⟨.comment .nil hline, rfl⟩⟩
      · exact ⟨[], x :: cs, rfl, .inl ⟨.nil, x, cs, rfl, by simpa using hgap⟩⟩

theorem skipFrom_wholeGap {g rest : List Char} (h : WholeGap g rest) (pos : Nat) :
    skipFrom false pos (g ++ rest) = ⟨pos + byteLength g, rest⟩ := by
  rcases h with ⟨hg, x, more, rfl, hx⟩ | ⟨hg, rfl⟩
  · rw [skipFrom_gap hg, skipFrom_solid hx]
  · cases hg with
    | gap hg =>
      rw [skipFrom_gap hg]
      rfl
    | comment hg hline =>
      rw [List.append_nil, skipFrom_gap hg, skipFrom_hash, skipFrom_lastComment hline]
      simp [Nat.add_assoc]

theorem skipped_of_wholeGap {c c' : Cursor} {g : List Char} (h : c.Reads g c')
    (hgap : WholeGap g c'.rest) : skipped c = c' := by
  rw [skipped, h.rest, skipFrom_wholeGap hgap, ← h.pos]

theorem skipped_gap {g : List Char} (h : Gap g) (pos : Nat) (rest : List Char) :
    skipped ⟨pos, g ++ rest⟩ = skipped ⟨pos + byteLength g, rest⟩ := skipFrom_gap h pos rest

theorem exists_reads_skipped (c : Cursor) :
    ∃ g, c.Reads g (skipped c) ∧ WholeGap g (skipped c).rest := by
  obtain ⟨g, rest, hrest, hgap⟩ := exists_wholeGap c.rest
  have hreads : c.Reads g ⟨c.pos + byteLength g, rest⟩ := ⟨hrest, rfl⟩
  rw [skipped_of_wholeGap hreads hgap]
  exact ⟨g, hreads, hgap⟩

theorem run_skip_bind {α : Type} (f : Unit → RuleReader α) (c : Cursor) :
    (skip >>= f).run c = (f ()).run (skipped c) := rfl

/-- Before a character that no gap starts with, what is skipped is a gap. -/
theorem skipped_reads_iff {x : Char} {t : List Char} {c c' : Cursor} (hx : isGapStart x = false) :
    (skipped c).Reads (x :: t) c' ↔ ∃ g, Gap g ∧ c.Reads (g ++ x :: t) c' := by
  constructor
  · intro h
    obtain ⟨g, hreads, hgap⟩ := exists_reads_skipped c
    rcases hgap with ⟨hg, -⟩ | ⟨-, hrest⟩
    · exact ⟨g, hg, hreads.trans h⟩
    · rw [h.rest] at hrest
      cases hrest
  · rintro ⟨g, hg, h⟩
    obtain ⟨c₁, h₁, h₂⟩ := Cursor.Reads.append_iff.1 h
    rw [skipped_of_wholeGap h₁ (.inl ⟨hg, x, _, h₂.rest, hx⟩)]
    exact h₂

/-! ### Tokens -/

theorem run_expect_eq_ok_iff {x : Char} {c c' : Cursor} (hx : isGapStart x = false) :
    (expect x).run c = .ok ((), c') ↔ ∃ g, Gap g ∧ c.Reads (g ++ [x]) c' := by
  rw [← skipped_reads_iff hx, expect, run_skip_bind, run_bind_eq_ok_iff]
  simp only [run_satisfy_eq_ok_iff, run_pure_eq_ok_iff, decide_eq_true_eq, true_and]
  constructor
  · rintro ⟨y, c₁, ⟨rfl, h⟩, rfl⟩
    exact h
  · intro h
    exact ⟨x, c', ⟨rfl, h⟩, rfl⟩

theorem run_token_eq_ok_iff {first more : Char → Bool} {e : Cursor → RuleError} {n : List Char}
    {c c' : Cursor} (hfirst : ∀ x, first x = true → isGapStart x = false) :
    (do
      skip
      let x ← satisfy first e
      let xs ← takeWhile more
      return x :: xs : RuleReader (List Char)).run c = .ok (n, c') ↔
      ∃ g, Gap g ∧ Run first more n ∧ c.Reads (g ++ n) c' ∧ c'.StopsAt more := by
  simp only [run_skip_bind, run_bind_eq_ok_iff, run_satisfy_eq_ok_iff, run_takeWhile_eq_ok_iff,
    run_pure_eq_ok_iff]
  constructor
  · rintro ⟨x, c₁, ⟨hx, h₁⟩, xs, c₂, ⟨h₂, hxs, hstop⟩, rfl, rfl⟩
    obtain ⟨g, hg, h⟩ := (skipped_reads_iff (hfirst x hx)).1 (h₁.trans h₂)
    exact ⟨g, hg, .intro hx hxs, h, hstop⟩
  · rintro ⟨g, hg, ⟨hx, hxs⟩, h, hstop⟩
    obtain ⟨c₁, h₁, h₂⟩ := Cursor.Reads.cons_iff.1 ((skipped_reads_iff (hfirst _ hx)).2 ⟨g, hg, h⟩)
    exact ⟨_, c₁, ⟨hx, h₁⟩, _, c', ⟨h₂, hxs, hstop⟩, rfl, rfl⟩

theorem isNameChar_of_isGapStart {x : Char} (hx : isGapStart x = true) : isNameChar x = false := by
  rw [isGapStart_eq_true_iff] at hx
  rcases hx with rfl | rfl | rfl | rfl | rfl <;> decide

theorem isWordChar_of_isGapStart {x : Char} (hx : isGapStart x = true) : isWordChar x = false := by
  rw [isGapStart_eq_true_iff] at hx
  rcases hx with rfl | rfl | rfl | rfl | rfl <;> decide +kernel

theorem isNameChar_of_isNameStart {x : Char} (hx : isNameStart x = true) : isNameChar x = true := by
  unfold isNameStart at hx
  simp only [isNameChar, Char.isAlphanum, Bool.or_eq_true] at hx ⊢
  exact hx.imp .inl id

theorem isGapStart_of_isNameStart {x : Char} (hx : isNameStart x = true) :
    isGapStart x = false := by
  by_contra hgap
  have := isNameChar_of_isGapStart (by simpa using hgap)
  rw [isNameChar_of_isNameStart hx] at this
  cases this

theorem isGapStart_of_isWordChar {x : Char} (hx : isWordChar x = true) : isGapStart x = false := by
  by_contra hgap
  have := isWordChar_of_isGapStart (by simpa using hgap)
  rw [hx] at this
  cases this

theorem run_name_eq_ok_iff {n : List Char} {c c' : Cursor} :
    name.run c = .ok (n, c') ↔
      ∃ g, Gap g ∧ Name n ∧ c.Reads (g ++ n) c' ∧ c'.StopsAt isNameChar :=
  run_token_eq_ok_iff fun _ => isGapStart_of_isNameStart

theorem run_word_eq_ok_iff {w : List Char} {c c' : Cursor} :
    word.run c = .ok (w, c') ↔
      ∃ g, Gap g ∧ Word w ∧ c.Reads (g ++ w) c' ∧ c'.StopsAt isWordChar :=
  run_token_eq_ok_iff fun _ => isGapStart_of_isWordChar

/-- A run of characters that no gap continues ends before a gap and a character behind it that does
not continue it either. -/
theorem stopsAt_of_gap {more : Char → Bool} {x : Char} {g t : List Char} {c c' : Cursor}
    (hmore : ∀ y, isGapStart y = true → more y = false) (hx : more x = false) (hg : Gap g)
    (h : c.Reads (g ++ x :: t) c') : c.StopsAt more := by
  cases hg with
  | nil => exact h.stopsAt hx
  | @space y g hy => exact h.stopsAt (hmore y (by simp [isGapStart, hy]))
  | comment => exact h.stopsAt (hmore '#' (by simp [isGapStart]))

/-! ### Bodies -/

theorem byteLength_dollar (raw : List Char) :
    byteLength ('\\' :: '$' :: raw) = 2 + byteLength raw := by
  rw [byteLength_cons, byteLength_cons, ← Nat.add_assoc]
  rfl

theorem bodyFrom_of_bodyText {raw text : List Char} (h : BodyText raw text) (seen : List Char)
    (pos : Nat) (rest : List Char) :
    bodyFrom seen pos (raw ++ '$' :: rest) =
      some (⟨seen.reverse ++ text, pos + byteLength raw⟩,
        ⟨pos + byteLength (raw ++ ['$']), rest⟩) := by
  induction h generalizing seen pos with
  | nil =>
    rw [List.append_nil]
    rfl
  | @dollar raw text _ ih =>
    rw [List.cons_append, List.cons_append, bodyFrom, ih, List.cons_append, List.cons_append,
      byteLength_dollar, byteLength_dollar]
    simp [Nat.add_assoc]
  | @char x raw text hx hslash _ ih =>
    rw [List.cons_append, bodyFrom, ih]
    · simp [Nat.add_assoc]
    · intro more hback hrest
      obtain ⟨y, hy, hne⟩ := hslash hback
      obtain ⟨raw, rfl⟩ := List.head?_eq_some_iff.1 hy
      exact hne (List.cons.inj hrest).1
    · exact hx

theorem bodyText_of_bodyFrom {seen : List Char} {pos : Nat} {cs : List Char} {b : Body}
    {c' : Cursor} (h : bodyFrom seen pos cs = some (b, c')) :
    ∃ raw text, Cursor.Reads ⟨pos, cs⟩ (raw ++ ['$']) c' ∧ BodyText raw text ∧
      b = ⟨seen.reverse ++ text, pos + byteLength raw⟩ := by
  fun_induction bodyFrom seen pos cs with
  | case1 => cases h
  | case2 seen pos rest ih =>
    obtain ⟨raw, text, hreads, hbody, rfl⟩ := ih h
    have hdollar : Cursor.Reads ⟨pos, '\\' :: '$' :: rest⟩ ['\\', '$'] ⟨pos + 2, rest⟩ := ⟨rfl, rfl⟩
    refine ⟨'\\' :: '$' :: raw, '$' :: text, hdollar.trans hreads, .dollar hbody, ?_⟩
    rw [byteLength_dollar]
    simp [Nat.add_assoc]
  | case3 seen pos rest =>
    obtain ⟨rfl, rfl⟩ := Prod.mk.inj (Option.some.inj h)
    exact ⟨[], [], ⟨rfl, rfl⟩, .nil, by simp⟩
  | case4 seen pos x rest hescaped hx ih =>
    obtain ⟨raw, text, hreads, hbody, rfl⟩ := ih h
    have hchar : Cursor.Reads ⟨pos, x :: rest⟩ [x] ⟨pos + x.utf8Size, rest⟩ := ⟨rfl, by simp⟩
    refine ⟨x :: raw, x :: text, hchar.trans hreads, .char hx (fun hback => ?_) hbody, ?_⟩
    · -- A backslash before the terminator would have been read together with it.
      have hrest : rest = raw ++ ['$'] ++ c'.rest := hreads.rest
      cases raw with
      | nil => exact absurd hrest (hescaped _ hback)
      | cons y raw =>
        refine ⟨y, rfl, ?_⟩
        rintro rfl
        exact hescaped _ hback hrest
    · simp [Nat.add_assoc]

theorem run_body_eq_ok_iff {b : Body} {c c' : Cursor} :
    body.run c = .ok (b, c') ↔
      ∃ raw, c.Reads (raw ++ ['$']) c' ∧ BodyText raw b.text ∧ b.stop = c.pos + byteLength raw := by
  constructor
  · intro h
    simp only [body] at h
    split at h
    · cases h
    · rename_i r hr
      obtain rfl := Except.ok.inj h
      obtain ⟨raw, text, hreads, hbody, rfl⟩ := bodyText_of_bodyFrom hr
      exact ⟨raw, hreads, hbody, rfl⟩
  · rintro ⟨raw, hreads, hbody, hstop⟩
    have hread := bodyFrom_of_bodyText hbody [] c.pos c'.rest
    have hrest : c.rest = raw ++ '$' :: c'.rest := by simpa using hreads.rest
    rw [← hrest, ← hstop, ← hreads.pos] at hread
    simp [body, hread]

/-! ### Lists -/

/-- The reader `r` reads what `entry` describes, with a gap before it, and stops before a character
without `more`. -/
structure ReadsAs {α : Type} (r : RuleReader α) (entry : List Char → α → Prop)
    (more : Char → Bool) : Prop where
  run_eq_ok_iff : ∀ {a : α} {c c' : Cursor}, r.run c = .ok (a, c') ↔
    ∃ g t, Gap g ∧ entry t a ∧ c.Reads (g ++ t) c' ∧ c'.StopsAt more
  solid : ∀ {t : List Char} {a : α}, entry t a →
    ∃ x u, t = x :: u ∧ isGapStart x = false ∧ x ≠ '\x7d'
  stops : ∀ x, isGapStart x = true ∨ x = ',' ∨ x = '\x7d' → more x = false

theorem isGapStart_close : isGapStart '\x7d' = false := by decide

theorem isGapStart_comma : isGapStart ',' = false := by decide

section

variable {α : Type} {entry : RuleReader α} {E : List Char → α → Prop} {more : Char → Bool}

theorem entries_of_entriesFrom (he : ReadsAs entry E more) {c c' : Cursor} {as : List α}
    (h : entriesFrom entry c = .ok (as, c')) : ∃ t, c.Reads t c' ∧ Entries E t as := by
  fun_induction entriesFrom entry c generalizing as with
  | case1 c c₁ h₁ =>
    obtain ⟨rfl, rfl⟩ := Prod.mk.inj (Except.ok.inj h)
    obtain ⟨g, hg, hreads⟩ :=
      (skipped_reads_iff isGapStart_close).1 (Cursor.reads_of_next? h₁)
    exact ⟨_, hreads, .nil hg⟩
  | case2 => cases h
  | case3 => cases h
  | case4 c a c₂ h₁ c₃ h₂ _ as' c₄ h₃ _ ih =>
    obtain ⟨rfl, rfl⟩ := Prod.mk.inj (Except.ok.inj h)
    obtain ⟨g, t, hg, ht, hreads, -⟩ := he.run_eq_ok_iff.1 h₁
    obtain ⟨u, hu, hus⟩ := ih h₃
    obtain ⟨k, hk, hcomma⟩ :=
      (skipped_reads_iff isGapStart_comma).1 ((Cursor.reads_of_next? h₂).trans hu)
    refine ⟨_, ?_, .more hg ht hk hus⟩
    simpa using hreads.trans hcomma
  | case5 c a c₂ h₁ c₃ h₂ =>
    obtain ⟨rfl, rfl⟩ := Prod.mk.inj (Except.ok.inj h)
    obtain ⟨g, t, hg, ht, hreads, -⟩ := he.run_eq_ok_iff.1 h₁
    obtain ⟨k, hk, hclose⟩ := (skipped_reads_iff isGapStart_close).1 (Cursor.reads_of_next? h₂)
    refine ⟨_, ?_, .last hg ht hk⟩
    simpa using hreads.trans hclose
  | case6 => cases h

theorem entriesFrom_of_close {c c' : Cursor} (h : (skipped c).Reads ['\x7d'] c') :
    entriesFrom entry c = .ok ([], c') := by
  rw [entriesFrom, Cursor.next?_eq_some_iff.2 h]
  rfl

/-- What stands behind an entry decides how the list goes on. -/
theorem entriesFrom_of_entry {a : α} {c c₂ : Cursor} (hopen : (skipped c).peek? ≠ some '\x7d')
    (ha : entry.run c = .ok (a, c₂)) :
    entriesFrom entry c =
      match (skipped c₂).next? with
      | some (',', c₃) => (entriesFrom entry c₃).map fun (as, c') => (a :: as, c')
      | some ('\x7d', c₃) => .ok ([a], c₃)
      | _ => .error (.expected "',' or '\x7d'" (skipped c₂)) := by
  rw [entriesFrom]
  split
  · rename_i c₁ hclose
    refine absurd ?_ hopen
    rw [Cursor.peek?, (Cursor.reads_of_next? hclose).rest]
    rfl
  · split
    · rename_i e herror
      rw [ha] at herror
      cases herror
    · rename_i a' c₂' hok
      rw [ha] at hok
      obtain ⟨rfl, rfl⟩ := Prod.mk.inj (Except.ok.inj hok)
      split
      · rename_i c₃ hcomma
        simp only [hcomma]
        cases entriesFrom entry c₃ <;> rfl
      · rename_i c₃ hclose
        simp only [hclose]
      · rename_i hcomma hclose
        split
        · rename_i c₃ hnext
          exact absurd hnext (hcomma c₃)
        · rename_i c₃ hnext
          exact absurd hnext (hclose c₃)
        · rfl

/-- Reads what may stand behind an entry. -/
def separator : RuleReader Char := do
  skip
  satisfy (fun x => x = ',' || x = '\x7d') (RuleError.expected "',' or '\x7d'")

theorem consumes_separator : separator.Consumes := consumes_bind _ fun _ => consumes_satisfy _ _

/-- Reads a list from behind its opening brace. -/
def entries (entry : RuleReader α) : RuleReader (List α) :=
  ⟨entriesFrom entry, moves_of_entriesFrom⟩

/-- Reads a list that goes on with an entry. -/
def furtherEntries (entry : RuleReader α) : RuleReader (List α) := do
  let a ← entry
  let x ← separator
  if x = ',' then do
    let as ← entries entry
    return a :: as
  else return [a]

theorem run_entries_of_close {c : Cursor} (hclose : (skipped c).peek? = some '\x7d') :
    (entries entry).run c = .ok ([], ⟨(skipped c).pos + 1, (skipped c).rest.tail⟩) := by
  obtain ⟨rest, hrest⟩ := List.head?_eq_some_iff.1 hclose
  refine entriesFrom_of_close ⟨?_, rfl⟩
  rw [hrest]
  rfl

/-- Where a list does not end at once, it goes on with an entry. -/
theorem run_entries_of_open {c : Cursor} (hopen : (skipped c).peek? ≠ some '\x7d') :
    (entries entry).run c = (furtherEntries entry).run c := by
  have hrun : (entries entry).run c = entriesFrom entry c := rfl
  rw [furtherEntries, run_bind, hrun]
  cases ha : entry.run c with
  | error e =>
    rw [entriesFrom]
    split
    · rename_i c₁ hclose
      refine absurd ?_ hopen
      rw [Cursor.peek?, (Cursor.reads_of_next? hclose).rest]
      rfl
    · split
      · rename_i e' he'
        rw [ha] at he'
        obtain rfl := Except.error.inj he'
        rfl
      · rename_i hok
        rw [ha] at hok
        cases hok
  | ok p =>
    obtain ⟨a, c₂⟩ := p
    have hseparator : separator.run c₂ = (satisfy (fun x => x = ',' || x = '\x7d')
      (RuleError.expected "',' or '\x7d'")).run (skipped c₂) := rfl
    rw [entriesFrom_of_entry hopen ha]
    simp only [run_bind, hseparator, satisfy]
    cases hnext : (skipped c₂).next? with
    | none => rfl
    | some p =>
      obtain ⟨x, c₃⟩ := p
      by_cases hcomma : x = ','
      · subst hcomma
        simp only [decide_true, Bool.true_or, if_true, run_bind, entries]
        cases entriesFrom entry c₃ <;> rfl
      · by_cases hclose : x = '\x7d'
        · subst hclose
          rfl
        · simp [hcomma, hclose]

theorem exists_run_entry (he : ReadsAs entry E more) {x : Char} {g t k rest : List Char} {a : α}
    {c c' : Cursor} (hg : Gap g) (ht : E t a) (hk : Gap k) (hx : x = ',' ∨ x = '\x7d')
    (h : c.Reads (g ++ (t ++ (k ++ x :: rest))) c') :
    ∃ c₂ c₃, (skipped c).peek? ≠ some '\x7d' ∧ entry.run c = .ok (a, c₂) ∧
      (skipped c₂).next? = some (x, c₃) ∧ c₃.Reads rest c' := by
  rw [← List.append_assoc] at h
  obtain ⟨c₂, h₁, h₂⟩ := Cursor.Reads.append_iff.1 h
  have hsolid : isGapStart x = false := by rcases hx with rfl | rfl <;> decide
  have hstop : c₂.StopsAt more :=
    stopsAt_of_gap (fun y hy => he.stops y (.inl hy)) (he.stops x (.inr hx)) hk h₂
  have hrun : entry.run c = .ok (a, c₂) := he.run_eq_ok_iff.2 ⟨g, t, hg, ht, h₁, hstop⟩
  obtain ⟨c₃, h₃, h₄⟩ := Cursor.Reads.cons_iff.1 ((skipped_reads_iff hsolid).2 ⟨k, hk, h₂⟩)
  refine ⟨c₂, c₃, ?_, hrun, Cursor.next?_eq_some_iff.2 h₃, h₄⟩
  obtain ⟨y, u, rfl, hy, hne⟩ := he.solid ht
  rw [Cursor.peek?, ((skipped_reads_iff hy).2 ⟨g, hg, h₁⟩).rest]
  simpa using hne

theorem entriesFrom_of_entries (he : ReadsAs entry E more) {c c' : Cursor} {t : List Char}
    {as : List α} (hreads : c.Reads t c') (h : Entries E t as) :
    entriesFrom entry c = .ok (as, c') := by
  induction h generalizing c with
  | nil hg => exact entriesFrom_of_close ((skipped_reads_iff isGapStart_close).2 ⟨_, hg, hreads⟩)
  | last hg ht hk =>
    obtain ⟨c₂, c₃, hopen, ha, hnext, hrest⟩ := exists_run_entry he hg ht hk (.inr rfl) hreads
    rw [entriesFrom_of_entry hopen ha, hnext, ← Cursor.Reads.nil_iff.1 hrest]
    rfl
  | more hg ht hk _ ih =>
    obtain ⟨c₂, c₃, hopen, ha, hnext, hrest⟩ := exists_run_entry he hg ht hk (.inl rfl) hreads
    rw [entriesFrom_of_entry hopen ha, hnext]
    simp only [ih hrest]
    rfl

theorem run_braced_eq_ok_iff (he : ReadsAs entry E more) {c c' : Cursor} {as : List α} :
    (braced entry).run c = .ok (as, c') ↔
      ∃ g t, Gap g ∧ Entries E t as ∧ c.Reads (g ++ '\x7b' :: t) c' := by
  rw [braced, run_bind_eq_ok_iff]
  simp only [run_expect_eq_ok_iff (x := '\x7b') (by decide)]
  constructor
  · rintro ⟨_, c₁, ⟨g, hg, h₁⟩, h⟩
    obtain ⟨t, h₂, ht⟩ := entries_of_entriesFrom he h
    exact ⟨g, t, hg, ht, by simpa using h₁.trans h₂⟩
  · rintro ⟨g, t, hg, ht, h⟩
    rw [← List.singleton_append, ← List.append_assoc] at h
    obtain ⟨c₁, h₁, h₂⟩ := Cursor.Reads.append_iff.1 h
    exact ⟨(), c₁, ⟨g, hg, h₁⟩, entriesFrom_of_entries he h₂ ht⟩

end

theorem stopsAt_isNameChar {x : Char} {g t : List Char} {c c' : Cursor} (hx : isNameChar x = false)
    (hg : Gap g) (h : c.Reads (g ++ x :: t) c') : c.StopsAt isNameChar :=
  stopsAt_of_gap (fun _ => isNameChar_of_isGapStart) hx hg h

theorem readsAs_keywordEntry : ReadsAs keywordEntry KeywordEntry isWordChar where
  run_eq_ok_iff {a c c'} := by
    simp only [keywordEntry, run_bind_eq_ok_iff, run_name_eq_ok_iff, run_word_eq_ok_iff,
      run_expect_eq_ok_iff (x := ':') (by decide), run_pure_eq_ok_iff]
    constructor
    · rintro ⟨n, c₁, ⟨g, hg, hn, h₁, -⟩, _, c₂, ⟨k, hk, h₂⟩, w, c₃, ⟨l, hl, hw, h₃, hstop⟩, rfl,
        rfl⟩
      refine ⟨g, _, hg, .intro hn hk hl hw, ?_, hstop⟩
      simpa using h₁.trans (h₂.trans h₃)
    · rintro ⟨g, _, hg, @⟨n, k, l, w, hn, hk, hl, hw⟩, h, hstop⟩
      rw [show g ++ (n ++ (k ++ ':' :: (l ++ w))) = (g ++ n) ++ ((k ++ [':']) ++ (l ++ w)) by
        simp] at h
      obtain ⟨c₁, h₁, h⟩ := Cursor.Reads.append_iff.1 h
      obtain ⟨c₂, h₂, h₃⟩ := Cursor.Reads.append_iff.1 h
      have hname := stopsAt_isNameChar (by decide) hk h₂
      exact ⟨n, c₁, ⟨g, hg, hn, h₁, hname⟩, (), c₂, ⟨k, hk, h₂⟩, w, c', ⟨l, hl, hw, h₃, hstop⟩,
        rfl, rfl⟩
  solid := by
    rintro t a ⟨⟨hx, -⟩, -, -, -⟩
    refine ⟨_, _, rfl, isGapStart_of_isNameStart hx, ?_⟩
    rintro rfl
    cases hx
  stops := by
    rintro x (hx | rfl | rfl)
    · exact isWordChar_of_isGapStart hx
    · decide +kernel
    · decide +kernel

theorem readsAs_ignoreEntry : ReadsAs ignoreEntry IgnoreEntry isNameChar where
  run_eq_ok_iff {a c c'} := by
    simp only [ignoreEntry, run_bind_eq_ok_iff, run_name_eq_ok_iff, run_pure_eq_ok_iff]
    constructor
    · rintro ⟨n, c₁, ⟨g, hg, hn, h, hstop⟩, rfl, rfl⟩
      exact ⟨g, n, hg, .intro hn, h, hstop⟩
    · rintro ⟨g, n, hg, ⟨hn⟩, h, hstop⟩
      exact ⟨n, c', ⟨g, hg, hn, h, hstop⟩, rfl, rfl⟩
  solid := by
    rintro t a ⟨⟨hx, -⟩⟩
    refine ⟨_, _, rfl, isGapStart_of_isNameStart hx, ?_⟩
    rintro rfl
    cases hx
  stops := by
    rintro x (hx | rfl | rfl)
    · exact isNameChar_of_isGapStart hx
    · decide
    · decide

end LexerGen.Rules
