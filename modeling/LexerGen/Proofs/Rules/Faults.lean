import LexerGen.Proofs.Rules.Derivation

/-! Faults of rule files. Reading stops at the first character that no declaration can go on with:
the text before it can be completed, and what follows it does not matter. A line end closes an open
comment, ends every name and every keyword and may stand in every body, so completions start with
one. Both facts hold of a sequence of readers if they hold of its parts, as long as what a part
reads does not depend on more than the next character. -/

namespace LexerGen.Rules

open Text Reader Grammar

/-! ### Places of faults -/

/-- The error `e` is about the end of `known`, which is the text `cs` from byte `pos` on, or about
the character that follows `known` in it. -/
def Fault (pos : Nat) (known cs : List Char) : RuleError → Prop
  | .expectedFound _ x p => p = pos + byteLength known ∧ ∃ after, cs = known ++ x :: after
  | .unexpected x p => p = pos + byteLength known ∧ ∃ after, cs = known ++ x :: after
  | .missing _ p => p = pos + byteLength known ∧ cs = known
  | .unterminated start stop => start ≤ stop ∧ stop = pos + byteLength known ∧ cs = known
  | .invalidLabel _ _ => False

section

variable {pos : Nat} {known text cs cs' : List Char} {e : RuleError}

theorem fault_append_iff :
    Fault pos (text ++ known) cs e ↔
      ∃ cs', cs = text ++ cs' ∧ Fault (pos + byteLength text) known cs' e := by
  cases e with
  | expectedFound what x p | unexpected x p =>
    simp only [Fault, byteLength_append, Nat.add_assoc, List.append_assoc]
    constructor
    · rintro ⟨hp, after, rfl⟩
      exact ⟨_, rfl, hp, after, rfl⟩
    · rintro ⟨_, rfl, hp, after, rfl⟩
      exact ⟨hp, after, rfl⟩
  | missing what p =>
    simp only [Fault, byteLength_append, Nat.add_assoc]
    constructor
    · rintro ⟨hp, rfl⟩
      exact ⟨known, rfl, hp, rfl⟩
    · rintro ⟨_, rfl, hp, rfl⟩
      exact ⟨hp, rfl⟩
  | unterminated start stop =>
    simp only [Fault, byteLength_append, Nat.add_assoc]
    constructor
    · rintro ⟨hle, hp, rfl⟩
      exact ⟨known, rfl, hle, hp, rfl⟩
    · rintro ⟨_, rfl, hle, hp, rfl⟩
      exact ⟨hle, hp, rfl⟩
  | invalidLabel label span => simp [Fault]

/-- What an error says of a text is the text up to the fault, and the character found there. -/
theorem Fault.exists_eq (h : Fault pos known cs e) :
    (∃ x, ∀ cs', Fault pos known cs' e ↔ ∃ after, cs' = known ++ x :: after) ∨
      ∀ cs', Fault pos known cs' e ↔ cs' = known := by
  cases e with
  | expectedFound what x p | unexpected x p =>
    obtain ⟨hp, -⟩ := h
    exact .inl ⟨x, fun cs' => by simp [Fault, hp]⟩
  | missing what p =>
    obtain ⟨hp, -⟩ := h
    exact .inr fun cs' => by simp [Fault, hp]
  | unterminated start stop =>
    obtain ⟨hle, hp, -⟩ := h
    exact .inr fun cs' => ⟨fun h' => h'.2.2, fun heq => ⟨hle, hp, heq⟩⟩
  | invalidLabel label span => exact h.elim

theorem Fault.starts (h : Fault pos known cs e) : known <+: cs := by
  rcases h.exists_eq with ⟨x, hx⟩ | heq
  · obtain ⟨after, rfl⟩ := (hx cs).1 h
    exact List.prefix_append _ _
  · obtain rfl := (heq cs).1 h
    exact List.prefix_rfl

/-- Two texts with the same fault start alike. -/
theorem Fault.head?_eq (h : Fault pos known cs e) (h' : Fault pos known cs' e) :
    cs'.head? = cs.head? := by
  rcases h.exists_eq with ⟨x, hx⟩ | heq
  · obtain ⟨after, rfl⟩ := (hx cs).1 h
    obtain ⟨after', rfl⟩ := (hx cs').1 h'
    cases known <;> rfl
  · rw [(heq cs).1 h, (heq cs').1 h']

/-- The end of a text is at its end. -/
theorem Fault.eq_nil (h : Fault pos known [] e) :
    known = [] ∧ ∀ cs', Fault pos known cs' e → cs' = [] := by
  have hknown : known = [] := List.prefix_nil.1 h.starts
  refine ⟨hknown, fun cs' h' => ?_⟩
  have hhead := h.head?_eq h'
  simpa using hhead

end

/-! ### What readers depend on -/

/-- The text goes on with a line end. -/
def Breaks (cs : List Char) : Prop := cs.head? = some '\n'

/-- `cs'` may stand where `cs` stood: it goes on with the same character, or with a line end. -/
def Alike (cs cs' : List Char) : Prop := Breaks cs' ∨ cs'.head? = cs.head?

/-- `t` can stand before a line end where a line end is wanted. -/
def Opens (t : List Char) : Prop := t = [] ∨ Breaks t

theorem Opens.breaks {t rest : List Char} (ht : Opens t) (hrest : Breaks rest) :
    Breaks (t ++ rest) := by
  rcases ht with rfl | ht
  · exact hrest
  · obtain ⟨u, rfl⟩ := List.head?_eq_some_iff.1 ht
    rfl

theorem Opens.append {t u : List Char} (ht : Opens t) (hu : Opens u) : Opens (t ++ u) := by
  rcases hu with rfl | hu
  · rwa [List.append_nil]
  · exact .inr (ht.breaks hu)

theorem Alike.append {t cs cs' : List Char} (h : Alike cs cs') : Alike (t ++ cs) (t ++ cs') := by
  cases t with
  | nil => exact h
  | cons x t => exact .inr rfl

/-- Behind the text before a fault a line end may stand. -/
theorem Fault.alike {pos : Nat} {known cs t : List Char} {e : RuleError} (h : Fault pos known cs e)
    (ht : Breaks t) : Alike cs (known ++ t) := by
  obtain ⟨after, rfl⟩ := h.starts
  exact Alike.append (.inl ht)

section

variable {α β : Type} {r : RuleReader α} {k : α → RuleReader β} {good : α → Prop} {good' : β → Prop}
  {c : Cursor} {pos : Nat} {known : List Char}

/-- What the reader gives does not depend on more than what it reads and the next character, and a
line end may stand there as well. -/
def Stable (r : RuleReader α) : Prop :=
  ∀ ⦃c c' : Cursor⦄ ⦃a : α⦄ ⦃text : List Char⦄, r.run c = .ok (a, c') → c.Reads text c' →
    ∀ rest, Alike c'.rest rest → r.run ⟨c.pos, text ++ rest⟩ = .ok (a, ⟨c'.pos, rest⟩)

/-- Some text completes `known` to one that the reader takes, with a value that is `good`. -/
def Completes (r : RuleReader α) (good : α → Prop) (pos : Nat) (known : List Char) : Prop :=
  ∃ t a, Opens t ∧ good a ∧ ∀ rest, Breaks rest →
    r.run ⟨pos, known ++ (t ++ rest)⟩ = .ok (a, ⟨pos + byteLength (known ++ t), rest⟩)

/-- Where nothing is read yet, some text completes what the reader wants. -/
def Starts (r : RuleReader α) (good : α → Prop) : Prop := ∀ pos, Completes r good pos []

theorem Completes.bind (h : Completes r good pos known) (hk : ∀ a, good a → Starts (k a) good') :
    Completes (r >>= k) good' pos known := by
  obtain ⟨t, a, ht, ha, hrun⟩ := h
  obtain ⟨u, b, hu, hb, hrun'⟩ := hk a ha (pos + byteLength (known ++ t))
  refine ⟨t ++ u, b, ht.append hu, hb, fun rest hrest => ?_⟩
  rw [List.append_assoc, run_bind_ok (hrun (u ++ rest) (hu.breaks hrest))]
  refine (hrun' rest hrest).trans ?_
  simp [Nat.add_assoc]

theorem Starts.bind (h : Starts r good) (hk : ∀ a, good a → Starts (k a) good') :
    Starts (r >>= k) good' := fun pos => (h pos).bind hk

theorem starts_pure {a : α} (ha : good a) : Starts (pure a : RuleReader α) good :=
  fun _ => ⟨[], a, .inl rfl, ha, fun _ _ => rfl⟩

theorem Stable.bind (h : Stable r) (hk : ∀ a, Stable (k a)) : Stable (r >>= k) := by
  intro c c' b text hrun hread rest halike
  obtain ⟨a, c₁, ha, hb⟩ := run_bind_eq_ok_iff.1 hrun
  obtain ⟨t, ht⟩ := r.moves ha
  obtain ⟨u, hu⟩ := (k a).moves hb
  obtain rfl : text = t ++ u :=
    List.append_cancel_right (hread.rest.symm.trans (ht.trans hu).rest)
  have halike' : Alike c₁.rest (u ++ rest) := by
    rw [hu.rest]
    exact halike.append
  rw [List.append_assoc, run_bind_ok (h ha ht _ halike')]
  exact hk a hb hu rest halike

theorem stable_pure (a : α) : Stable (pure a : RuleReader α) := by
  intro c c' b text hrun hread rest _
  obtain ⟨rfl, rfl⟩ := run_pure_eq_ok_iff.1 hrun
  have htext : text ++ c'.rest = [] ++ c'.rest := hread.rest.symm
  rw [List.append_cancel_right htext]
  rfl

/-- The reader's error at `c` stands behind `known`, which can be completed, and is the same
whatever follows the character that was found. -/
structure FaultsAt (r : RuleReader α) (good : α → Prop) (c : Cursor) (e : RuleError)
    (known : List Char) : Prop where
  fault : Fault c.pos known c.rest e
  completes : Completes r good c.pos known
  settled : ∀ cs, Fault c.pos known cs e → r.run ⟨c.pos, cs⟩ = .error e

/-- Every error of the reader at `c`, apart from a wrong label, is a fault of the text. -/
def Diagnoses (r : RuleReader α) (good : α → Prop) (c : Cursor) : Prop :=
  ∀ e, r.run c = .error e → (∀ label span, e ≠ .invalidLabel label span) →
    ∃ known, FaultsAt r good c e known

theorem FaultsAt.bind {e : RuleError} (h : FaultsAt r good c e known)
    (hstarts : ∀ a, good a → Starts (k a) good') : FaultsAt (r >>= k) good' c e known where
  fault := h.fault
  completes := h.completes.bind hstarts
  settled cs hcs := run_bind_error (h.settled cs hcs)

theorem Diagnoses.bind (hr : Diagnoses r good c) (hstable : Stable r)
    (hstarts : ∀ a, good a → Starts (k a) good')
    (hk : ∀ a c₁, r.run c = .ok (a, c₁) → Diagnoses (k a) good' c₁) :
    Diagnoses (r >>= k) good' c := by
  intro e he hlabel
  rw [run_bind] at he
  cases hrun : r.run c with
  | error e' =>
    rw [hrun] at he
    obtain rfl := Except.error.inj he
    obtain ⟨known, h⟩ := hr e' hrun hlabel
    exact ⟨known, h.bind hstarts⟩
  | ok p =>
    obtain ⟨a, c₁⟩ := p
    rw [hrun] at he
    obtain ⟨known, h⟩ := hk a c₁ hrun e he hlabel
    obtain ⟨text, hread⟩ := r.moves hrun
    have hfault : ∀ cs, Fault c.pos (text ++ known) cs e ↔
        ∃ cs', cs = text ++ cs' ∧ Fault c₁.pos known cs' e := by
      intro cs
      rw [fault_append_iff, ← hread.pos]
    refine ⟨text ++ known, (hfault _).2 ⟨c₁.rest, hread.rest, h.fault⟩, ?_, ?_⟩
    · obtain ⟨t, b, ht, hb, hrun'⟩ := h.completes
      refine ⟨t, b, ht, hb, fun rest hrest => ?_⟩
      have halike := h.fault.alike (ht.breaks hrest)
      rw [List.append_assoc, run_bind_ok (hstable hrun hread _ halike), hrun' rest hrest, hread.pos]
      simp [Nat.add_assoc]
    · intro cs hcs
      obtain ⟨cs', rfl, hcs'⟩ := (hfault cs).1 hcs
      rw [run_bind_ok (hstable hrun hread cs' (.inr (h.fault.head?_eq hcs')))]
      exact h.settled cs' hcs'

/-- A reader that cannot fail may follow. -/
theorem Diagnoses.bind_total (hr : Diagnoses r good c) (hk : ∀ a c e, (k a).run c ≠ .error e)
    (hstarts : ∀ a, good a → Starts (k a) good') : Diagnoses (r >>= k) good' c := by
  intro e he hlabel
  rw [run_bind] at he
  cases hrun : r.run c with
  | error e' =>
    rw [hrun] at he
    obtain rfl := Except.error.inj he
    obtain ⟨known, h⟩ := hr e' hrun hlabel
    exact ⟨known, h.bind hstarts⟩
  | ok p =>
    rw [hrun] at he
    exact absurd he (hk p.1 p.2 e)

/-- The reader can be started anywhere and diagnoses every text. -/
structure Guides (r : RuleReader α) (good : α → Prop) : Prop where
  starts : Starts r good
  diagnoses : ∀ c, Diagnoses r good c

theorem Guides.bind (h : Guides r good) (hstable : Stable r) (hk : ∀ a, Guides (k a) good') :
    Guides (r >>= k) good' where
  starts := h.starts.bind fun a _ => (hk a).starts
  diagnoses c := (h.diagnoses c).bind hstable (fun a _ => (hk a).starts)
    fun a c₁ _ => (hk a).diagnoses c₁

/-- A reader that does the same as another one on every text that starts with the same character
diagnoses the same faults. -/
theorem Diagnoses.of_head {r' : RuleReader α} (h : Diagnoses r good c) (hstarts : Starts r' good)
    (hrun : ∀ cs, cs.head? = c.rest.head? → r'.run ⟨c.pos, cs⟩ = r.run ⟨c.pos, cs⟩) :
    Diagnoses r' good c := by
  intro e he hlabel
  obtain ⟨known, hknown⟩ := h e ((hrun c.rest rfl).symm.trans he) hlabel
  refine ⟨known, hknown.fault, ?_, fun cs hcs => ?_⟩
  · cases known with
    | nil => exact hstarts c.pos
    | cons x known =>
      obtain ⟨after, hafter⟩ := hknown.fault.starts
      obtain ⟨t, a, ht, ha, hcompletes⟩ := hknown.completes
      refine ⟨t, a, ht, ha, fun rest hrest => ?_⟩
      rw [hrun, hcompletes rest hrest]
      rw [← hafter]
      rfl
  · rw [hrun cs (hknown.fault.head?_eq hcs)]
    exact hknown.settled cs hcs

theorem diagnoses_here_bind {f : Nat → RuleReader α} (h : ∀ start c, Diagnoses (f start) good c)
    (c : Cursor) : Diagnoses (here >>= fun start => f start.pos) good c := by
  intro e he hlabel
  obtain ⟨known, hknown⟩ := h c.pos c e he hlabel
  exact ⟨known, hknown.fault, hknown.completes, hknown.settled⟩

theorem guides_pure {a : α} (ha : good a) : Guides (pure a : RuleReader α) good where
  starts := starts_pure ha
  diagnoses c e he := by cases he

theorem gap_newline : Gap ['\n'] := .space (by decide) .nil

/-- The reader skips a gap first. -/
def SkipsFirst (r : RuleReader α) : Prop := ∀ c, r.run (skipped c) = r.run c

theorem skipsFirst_skip_bind (f : Unit → RuleReader α) : SkipsFirst (skip >>= f) := by
  intro c
  rw [run_skip_bind, run_skip_bind, skipped_skipped]

theorem SkipsFirst.bind (h : SkipsFirst r) : SkipsFirst (r >>= k) := by
  intro c
  rw [run_bind, run_bind, h]

/-- Where a gap is followed by a line end or by something else than a gap, nothing of it is left. -/
theorem skipped_wholeGap {g rest cs : List Char} (hg : WholeGap g rest)
    (hcs : rest = [] → Breaks cs) (pos : Nat) :
    skipped ⟨pos, g ++ cs⟩ = skipped ⟨pos + byteLength g, cs⟩ := by
  rcases hg with ⟨hg, -⟩ | ⟨hg, hrest⟩
  · exact skipped_gap hg pos cs
  · obtain ⟨u, rfl⟩ := List.head?_eq_some_iff.1 (hcs hrest)
    have hline := skipped_gap gap_newline (pos + byteLength g) u
    have hgap := skipped_gap hg.newline pos u
    rw [List.append_assoc, byteLength_append, ← Nat.add_assoc] at hgap
    exact hgap.trans hline.symm

/-- A fault behind a gap is one of the whole text. -/
theorem Diagnoses.of_skipped (hskips : SkipsFirst r) (h : Diagnoses r good (skipped c)) :
    Diagnoses r good c := by
  intro e he hlabel
  rw [← hskips] at he
  obtain ⟨known, hknown⟩ := h e he hlabel
  obtain ⟨g, hread, hgap⟩ := exists_reads_skipped c
  have hrun : ∀ cs, ((skipped c).rest = [] → Breaks cs) →
      r.run ⟨c.pos, g ++ cs⟩ = r.run ⟨(skipped c).pos, cs⟩ := by
    intro cs hcs
    rw [← hskips, skipped_wholeGap hgap hcs, ← hread.pos, hskips]
  refine ⟨g ++ known, ?_, ?_, fun cs hcs => ?_⟩
  · rw [fault_append_iff, ← hread.pos]
    exact ⟨_, hread.rest, hknown.fault⟩
  · obtain ⟨t, a, ht, ha, hcompletes⟩ := hknown.completes
    refine ⟨t, a, ht, ha, fun rest hrest => ?_⟩
    rw [List.append_assoc, hrun, hcompletes rest hrest, hread.pos]
    · simp [Nat.add_assoc]
    · intro hnil
      have hfault := hknown.fault
      rw [hnil] at hfault
      rw [hfault.eq_nil.1]
      exact ht.breaks hrest
  · rw [fault_append_iff, ← hread.pos] at hcs
    obtain ⟨cs', rfl, hcs'⟩ := hcs
    by_cases hnil : (skipped c).rest = []
    · -- The error is about the end of the text, so the text is that at `c`.
      have hfault := hknown.fault
      rw [hnil] at hfault
      have hrest := hread.rest
      rw [hnil, ← hfault.eq_nil.2 cs' hcs'] at hrest
      rw [← hrest, ← hskips]
      exact he
    · rw [hrun cs' fun h => absurd h hnil]
      exact hknown.settled cs' hcs'

theorem skipped_solid {x : Char} (hx : isGapStart x = false) (pos : Nat) (rest : List Char) :
    skipped ⟨pos, x :: rest⟩ = ⟨pos, x :: rest⟩ := skipFrom_solid hx pos rest

theorem solid_or_nil_skipped (c : Cursor) : Solid (skipped c).rest ∨ (skipped c).rest = [] := by
  obtain ⟨g, -, ⟨-, hsolid⟩ | ⟨-, hnil⟩⟩ := exists_reads_skipped c
  · exact .inl hsolid
  · exact .inr hnil

/-- What starts with a character that no gap starts with can stand behind a gap. -/
theorem starts_skip_bind {x : Char} (hx : isGapStart x = false)
    (h : ∀ pos, Completes r good pos (x :: known)) : Starts (skip >>= fun _ => r) good := by
  intro pos
  obtain ⟨t, a, -, ha, hrun⟩ := h (pos + byteLength ['\n'])
  refine ⟨['\n'] ++ (x :: known ++ t), a, .inr rfl, ha, fun rest hrest => ?_⟩
  rw [List.nil_append, List.append_assoc, List.append_assoc, run_skip_bind, skipped_gap gap_newline,
    List.cons_append, skipped_solid hx, ← List.cons_append, hrun rest hrest]
  simp [Nat.add_assoc]

/-- The reader fails just where the next token does not start with a character that has `first`, and
says what it expected there. -/
structure Expects (r : RuleReader α) (first : Char → Bool) (what : String) : Prop where
  skips : SkipsFirst r
  run_eq_error_iff : ∀ {c : Cursor} {e : RuleError},
    r.run c = .error e ↔ (skipped c).StopsAt first ∧ e = .expected what (skipped c)

theorem fault_expected (what : String) (c : Cursor) :
    Fault c.pos [] c.rest (.expected what c) := by
  unfold RuleError.expected
  cases hpeek : c.peek? with
  | none => exact ⟨rfl, List.head?_eq_none_iff.1 hpeek⟩
  | some x =>
    obtain ⟨rest, hrest⟩ := List.head?_eq_some_iff.1 hpeek
    exact ⟨rfl, rest, hrest⟩

/-- At a place without a gap, a reader sees the character found there and nothing else. -/
theorem skipped_of_head?_eq {cs : List Char} (hcs : cs.head? = (skipped c).rest.head?) :
    skipped ⟨(skipped c).pos, cs⟩ = ⟨(skipped c).pos, cs⟩ := by
  rcases solid_or_nil_skipped c with ⟨x, rest, hrest, hx⟩ | hnil
  · rw [hrest] at hcs
    obtain ⟨after, rfl⟩ := List.head?_eq_some_iff.1 hcs
    exact skipped_solid hx _ _
  · rw [hnil] at hcs
    rw [List.head?_eq_none_iff.1 hcs]
    rfl

/-- A reader of what stands behind a gap may ask where it starts. -/
theorem guides_skip_here_bind {f : Nat → RuleReader α} {x : Char} (hx : isGapStart x = false)
    (hcompletes : ∀ pos, Completes (f pos) good pos (x :: known))
    (h : ∀ start c, Diagnoses (f start) good c) :
    Guides (do
      skip
      let start ← here
      f start.pos) good := by
  have hstarts := starts_skip_bind hx (r := here >>= fun start => f start.pos) hcompletes
  refine ⟨hstarts, fun c => .of_skipped (skipsFirst_skip_bind _) ?_⟩
  refine (diagnoses_here_bind h (skipped c)).of_head hstarts fun cs hcs => ?_
  rw [run_skip_bind, skipped_of_head?_eq hcs]

theorem Expects.guides {first : Char → Bool} {what : String} (h : Expects r first what)
    (hstarts : Starts r good) : Guides r good := by
  refine ⟨hstarts, fun c => ?_⟩
  refine .of_skipped h.skips fun e he _ => ?_
  obtain ⟨hstop, rfl⟩ := h.run_eq_error_iff.1 he
  rw [skipped_skipped] at hstop ⊢
  refine ⟨[], fault_expected what _, hstarts _, fun cs hcs => ?_⟩
  have hhead := (fault_expected what (skipped c)).head?_eq hcs
  have hpeek : Cursor.peek? ⟨(skipped c).pos, cs⟩ = (skipped c).peek? := hhead
  rw [h.run_eq_error_iff, skipped_of_head?_eq hhead]
  refine ⟨fun x hx => hstop x (hpeek ▸ hx), ?_⟩
  unfold RuleError.expected
  rw [hpeek]

/-! ### Tokens and bodies -/

/-- The reader takes just the texts that `takes` describes, together with the byte where they start,
before a character without `more`, which a line end is. -/
structure Takes (r : RuleReader α) (takes : Nat → List Char → α → Prop) (more : Char → Bool) :
    Prop where
  run_eq_ok_iff : ∀ {a : α} {c c' : Cursor}, r.run c = .ok (a, c') ↔
    ∃ t, takes c.pos t a ∧ c.Reads t c' ∧ c'.StopsAt more
  newline : more '\n' = false

section

variable {takes : Nat → List Char → α → Prop} {more : Char → Bool}

theorem stopsAt_of_breaks (hnewline : more '\n' = false) {rest : List Char} (h : Breaks rest) :
    Cursor.StopsAt more ⟨pos, rest⟩ := by
  intro x hx
  rw [← Option.some.inj (h.symm.trans hx)]
  exact hnewline

theorem Takes.stable (h : Takes r takes more) : Stable r := by
  intro c c' a text hrun hread rest halike
  obtain ⟨t, ht, hread', hstop⟩ := h.run_eq_ok_iff.1 hrun
  obtain rfl : text = t := List.append_cancel_right (hread.rest.symm.trans hread'.rest)
  refine h.run_eq_ok_iff.2 ⟨text, ht, ⟨rfl, hread.pos⟩, ?_⟩
  rcases halike with hbreaks | hhead
  · exact stopsAt_of_breaks h.newline hbreaks
  · exact fun x hx => hstop x (hhead.symm.trans hx)

theorem Takes.completes (h : Takes r takes more) {t : List Char} {a : α} (ht : Opens t)
    (ha : good a) (htakes : takes pos (known ++ t) a) : Completes r good pos known := by
  refine ⟨t, a, ht, ha, fun rest hrest => h.run_eq_ok_iff.2 ⟨known ++ t, htakes, ⟨?_, rfl⟩, ?_⟩⟩
  · rw [List.append_assoc]
  · exact stopsAt_of_breaks h.newline hrest

theorem Takes.starts (h : Takes r takes more)
    (hgood : ∀ pos, ∃ t a, takes pos ('\n' :: t) a ∧ good a) : Starts r good := by
  intro pos
  obtain ⟨t, a, ht, ha⟩ := hgood pos
  have hopens : Opens ('\n' :: t) := .inr rfl
  exact h.completes hopens ha ht

end

theorem expects_sign (first : Char → Bool) (what : String) :
    Expects (skip >>= fun _ => satisfy first (RuleError.expected what)) first what where
  skips := skipsFirst_skip_bind _
  run_eq_error_iff {c e} := by
    rw [run_skip_bind, run_satisfy_eq_error_iff]

/-- A reader that cannot fail may follow. -/
theorem Expects.bind {first : Char → Bool} {what : String} (h : Expects r first what)
    (hk : ∀ a c e, (k a).run c ≠ .error e) : Expects (r >>= k) first what where
  skips := h.skips.bind
  run_eq_error_iff {c e} := by
    rw [← h.run_eq_error_iff, run_bind]
    cases hr : r.run c with
    | error e' => simp
    | ok p => simp [hk]

end

end LexerGen.Rules
