import LexerGen.Proofs.Rules.Reading
import LexerGen.Rules.Stream

/-! The reader of rule files accepts just the texts of the grammar. The declarations that it gives
are those that the grammar reads off the text, each with the bytes that it takes up. -/

namespace LexerGen.Rules

open Text Reader Grammar

/-! ### Labels -/

theorem skipped_skipped (c : Cursor) : skipped (skipped c) = skipped c := by
  obtain ⟨g, -, hgap⟩ := exists_reads_skipped c
  refine skipped_of_wholeGap (.refl _) ?_
  rcases hgap with ⟨-, hsolid⟩ | ⟨-, hrest⟩
  · exact .inl ⟨.nil, hsolid⟩
  · exact .inr ⟨.gap .nil, hrest⟩

theorem run_name_skipped (c : Cursor) : name.run (skipped c) = name.run c := by
  rw [name, run_skip_bind, run_skip_bind, skipped_skipped]

section

variable {α : Type} {entry : RuleReader α} {E : List Char → α → Prop} {more : Char → Bool}

/-- What follows the label of a list. -/
theorem run_block_eq_ok_iff (he : ReadsAs entry E more) {f : List α → RuleKind} {kind : RuleKind}
    {c c' : Cursor} :
    (do
      expect ']'
      let as ← braced entry
      expect '$'
      return f as : RuleReader RuleKind).run c = .ok (kind, c') ↔
      ∃ g₂ g₃ t g₄ as, Gap g₂ ∧ Gap g₃ ∧ Entries E t as ∧ Gap g₄ ∧ kind = f as ∧
        c.Reads (g₂ ++ ']' :: (g₃ ++ '\x7b' :: (t ++ (g₄ ++ ['$'])))) c' := by
  simp only [run_bind_eq_ok_iff, run_expect_eq_ok_iff (x := ']') (by decide),
    run_expect_eq_ok_iff (x := '$') (by decide), run_braced_eq_ok_iff he, run_pure_eq_ok_iff]
  constructor
  · rintro ⟨_, c₁, ⟨g₂, h₂, r₁⟩, as, c₂, ⟨g₃, t, h₃, ht, r₂⟩, _, c₃, ⟨g₄, h₄, r₃⟩, rfl, rfl⟩
    refine ⟨g₂, g₃, t, g₄, as, h₂, h₃, ht, h₄, rfl, ?_⟩
    simpa using r₁.trans (r₂.trans r₃)
  · rintro ⟨g₂, g₃, t, g₄, as, h₂, h₃, ht, h₄, rfl, r⟩
    rw [show g₂ ++ ']' :: (g₃ ++ '\x7b' :: (t ++ (g₄ ++ ['$']))) =
      (g₂ ++ [']']) ++ ((g₃ ++ '\x7b' :: t) ++ (g₄ ++ ['$'])) by simp] at r
    obtain ⟨c₁, r₁, r⟩ := Cursor.Reads.append_iff.1 r
    obtain ⟨c₂, r₂, r₃⟩ := Cursor.Reads.append_iff.1 r
    exact ⟨(), c₁, ⟨g₂, h₂, r₁⟩, as, c₂, ⟨g₃, t, h₃, ht, r₂⟩, (), c', ⟨g₄, h₄, r₃⟩, rfl, rfl⟩

end

/-- What follows the label of user code. -/
theorem run_userCode_eq_ok_iff {kind : RuleKind} {c c' : Cursor} :
    (do
      expect ','
      let tag ← name
      expect ']'
      let b ← body
      return .userCode (.ofList tag) (.ofList b.text) : RuleReader RuleKind).run c =
        .ok (kind, c') ↔
      ∃ g₂ g₃ n g₄ raw text, Gap g₂ ∧ Gap g₃ ∧ Name n ∧ Gap g₄ ∧ BodyText raw text ∧
        kind = .userCode (.ofList n) (.ofList text) ∧
        c.Reads (g₂ ++ ',' :: (g₃ ++ (n ++ (g₄ ++ ']' :: (raw ++ ['$']))))) c' := by
  simp only [run_bind_eq_ok_iff, run_expect_eq_ok_iff (x := ',') (by decide),
    run_expect_eq_ok_iff (x := ']') (by decide), run_name_eq_ok_iff, run_body_eq_ok_iff,
    run_pure_eq_ok_iff]
  constructor
  · rintro ⟨_, c₁, ⟨g₂, h₂, r₁⟩, n, c₂, ⟨g₃, h₃, hn, r₂, -⟩, _, c₃, ⟨g₄, h₄, r₃⟩, b, c₄,
      ⟨raw, r₄, hbody, -⟩, rfl, rfl⟩
    refine ⟨g₂, g₃, n, g₄, raw, b.text, h₂, h₃, hn, h₄, hbody, rfl, ?_⟩
    simpa using r₁.trans (r₂.trans (r₃.trans r₄))
  · rintro ⟨g₂, g₃, n, g₄, raw, text, h₂, h₃, hn, h₄, hbody, rfl, r⟩
    rw [show g₂ ++ ',' :: (g₃ ++ (n ++ (g₄ ++ ']' :: (raw ++ ['$'])))) =
      (g₂ ++ [',']) ++ ((g₃ ++ n) ++ ((g₄ ++ [']']) ++ (raw ++ ['$']))) by simp] at r
    obtain ⟨c₁, r₁, r⟩ := Cursor.Reads.append_iff.1 r
    obtain ⟨c₂, r₂, r⟩ := Cursor.Reads.append_iff.1 r
    obtain ⟨c₃, r₃, r₄⟩ := Cursor.Reads.append_iff.1 r
    have hstop := stopsAt_isNameChar (by decide) h₄ r₃
    exact ⟨(), c₁, ⟨g₂, h₂, r₁⟩, n, c₂, ⟨g₃, h₃, hn, r₂, hstop⟩, (), c₃, ⟨g₄, h₄, r₃⟩,
      ⟨text, c₃.pos + byteLength raw⟩, c', ⟨raw, r₄, hbody, rfl⟩, rfl, rfl⟩

/-- Skipping before a name goes to the place where the name starts. -/
theorem pos_skipped {g n : List Char} {c c' : Cursor} (hg : Gap g) (hn : Name n)
    (h : c.Reads (g ++ n) c') : (skipped c).pos = c.pos + byteLength g := by
  obtain ⟨hx, -⟩ := hn
  have hskipped := (skipped_reads_iff (isGapStart_of_isNameStart hx)).2 ⟨g, hg, h⟩
  have hpos := h.pos.symm.trans hskipped.pos
  rw [byteLength_append] at hpos
  omega

/-- Up to its label, a declaration in brackets is read in one way. -/
theorem run_bracketed_eq_ok_iff {kind : RuleKind} {c c' : Cursor} :
    bracketed.run c = .ok (kind, c') ↔ ∃ g g₁ label c₁, Gap g ∧ Gap g₁ ∧ Name label ∧
      c.Reads (g ++ '[' :: (g₁ ++ label)) c₁ ∧ c₁.StopsAt isNameChar ∧
      (labelled label ⟨c.pos + byteLength (g ++ '[' :: g₁), c₁.pos⟩).run c₁ = .ok (kind, c') := by
  simp only [bracketed, run_bind_eq_ok_iff, run_skip_bind, run_here_eq_ok_iff,
    run_expect_eq_ok_iff (x := '[') (by decide)]
  have hstart : ∀ {g g₁ label : List Char} {c₁ c₂ : Cursor}, Gap g₁ → Name label →
      c.Reads (g ++ ['[']) c₁ → c₁.Reads (g₁ ++ label) c₂ →
      (skipped c₁).pos = c.pos + byteLength (g ++ '[' :: g₁) := by
    intro g g₁ label c₁ c₂ h₁ hlabel r₁ r₂
    rw [pos_skipped h₁ hlabel r₂, r₁.pos]
    simp [Nat.add_assoc]
  constructor
  · rintro ⟨_, c₁, ⟨g, hg, r₁⟩, _, _, ⟨rfl, rfl⟩, label, c₂, hname, _, _, ⟨rfl, rfl⟩, h⟩
    rw [run_name_skipped] at hname
    obtain ⟨g₁, h₁, hlabel, r₂, hstop⟩ := run_name_eq_ok_iff.1 hname
    rw [hstart h₁ hlabel r₁ r₂] at h
    exact ⟨g, g₁, label, _, hg, h₁, hlabel, by simpa using r₁.trans r₂, hstop, h⟩
  · rintro ⟨g, g₁, label, c₂, hg, h₁, hlabel, r, hstop, h⟩
    rw [show g ++ '[' :: (g₁ ++ label) = (g ++ ['[']) ++ (g₁ ++ label) by simp] at r
    obtain ⟨c₁, r₁, r₂⟩ := Cursor.Reads.append_iff.1 r
    rw [← hstart h₁ hlabel r₁ r₂] at h
    refine ⟨(), c₁, ⟨g, hg, r₁⟩, _, _, ⟨rfl, rfl⟩, label, c₂, ?_, _, _, ⟨rfl, rfl⟩, h⟩
    rw [run_name_skipped]
    exact run_name_eq_ok_iff.2 ⟨g₁, h₁, hlabel, r₂, hstop⟩

theorem Grammar.Gap.eq_nil {g t : List Char} {c c' : Cursor} (hg : Gap g) (h : c.Reads (g ++ t) c')
    (hc : c.StopsAt isGapStart) : g = [] := by
  have hhead : ∀ {x : Char} {u : List Char}, c.Reads (x :: u) c' → isGapStart x = false := by
    intro x u hx
    refine hc x ?_
    rw [Cursor.peek?, hx.rest]
    rfl
  cases hg with
  | nil => rfl
  | space hx =>
    have := hhead h
    simp [isGapStart, hx] at this
  | comment =>
    have := hhead h
    simp [isGapStart] at this

theorem statement_of_bracketed {kind : RuleKind} {c c' : Cursor} (hc : c.StopsAt isGapStart)
    (h : bracketed.run c = .ok (kind, c')) : ∃ t, c.Reads t c' ∧ Statement c.pos t kind := by
  obtain ⟨g, g₁, label, c₁, hg, h₁, -, r₁, -, h⟩ := run_bracketed_eq_ok_iff.1 h
  obtain rfl := hg.eq_nil r₁ hc
  unfold labelled at h
  split at h
  · rename_i hlabel
    obtain ⟨g₂, g₃, t, g₄, as, h₂, h₃, ht, h₄, rfl, r₂⟩ :=
      (run_block_eq_ok_iff readsAs_keywordEntry).1 h
    refine ⟨_, ?_, .keywords (.intro h₁ h₂ h₃ ht h₄)⟩
    simpa [hlabel] using r₁.trans r₂
  · split at h
    · rename_i hlabel
      obtain ⟨g₂, g₃, t, g₄, as, h₂, h₃, ht, h₄, rfl, r₂⟩ :=
        (run_block_eq_ok_iff readsAs_ignoreEntry).1 h
      refine ⟨_, ?_, .ignore (.intro h₁ h₂ h₃ ht h₄)⟩
      simpa [hlabel] using r₁.trans r₂
    · split at h
      · rename_i hlabel
        obtain ⟨g₂, g₃, n, g₄, raw, text, h₂, h₃, hn, h₄, hbody, rfl, r₂⟩ :=
          run_userCode_eq_ok_iff.1 h
        refine ⟨_, ?_, .userCode h₁ h₂ h₃ hn h₄ hbody⟩
        simpa [hlabel] using r₁.trans r₂
      · cases h

section

variable {α : Type} {entry : RuleReader α} {E : List Char → α → Prop} {more : Char → Bool}

theorem run_bracketed_of_block (he : ReadsAs entry E more) {label t : List Char}
    {f : List α → RuleKind} {as : List α} {c c' : Cursor} (hn : Name label)
    (hlabelled : ∀ span, labelled label span = do
      expect ']'
      let as ← braced entry
      expect '$'
      return f as) (h : Block label E t as) (r : c.Reads t c') :
    bracketed.run c = .ok (f as, c') := by
  obtain @⟨g₁, g₂, g₃, g₄, t, as, h₁, h₂, h₃, ht, h₄⟩ := h
  rw [← List.append_assoc, ← List.cons_append] at r
  obtain ⟨c₁, r₁, r₂⟩ := Cursor.Reads.append_iff.1 r
  refine run_bracketed_eq_ok_iff.2 ⟨[], g₁, label, c₁, .nil, h₁, hn, r₁,
    stopsAt_isNameChar (by decide) h₂ r₂, ?_⟩
  rw [hlabelled]
  exact (run_block_eq_ok_iff he).2 ⟨g₂, g₃, t, g₄, as, h₂, h₃, ht, h₄, rfl, r₂⟩

end

/-! ### Declarations -/

/-- Where a body starts: at the terminator, or at a character that no gap starts with. -/
theorem solid_body_iff {raw rest : List Char} :
    Solid (raw ++ '$' :: rest) ↔
      ∀ x, raw.head? = some x → isSpace x = false ∧ x ≠ '#' := by
  cases raw with
  | nil => simp [Solid, isGapStart, isSpace]
  | cons y raw => simp [Solid, isGapStart]

theorem run_pattern_eq_ok_iff {kind : RuleKind} {c c' : Cursor} (hc : c.StopsAt isGapStart) :
    pattern.run c = .ok (kind, c') ↔ ∃ n g k raw text, Name n ∧ Gap g ∧ Gap k ∧
      (∀ x, raw.head? = some x → isSpace x = false ∧ x ≠ '#') ∧ BodyText raw text ∧
      c.Reads (n ++ (g ++ ':' :: k) ++ (raw ++ ['$'])) c' ∧
      kind = .pattern (.ofList n) (.ofList text) ⟨c.pos + byteLength (n ++ (g ++ ':' :: k)),
        c.pos + byteLength (n ++ (g ++ ':' :: k)) + byteLength raw⟩ := by
  simp only [pattern, run_bind_eq_ok_iff, run_name_eq_ok_iff, run_skip_bind, run_here_eq_ok_iff,
    run_expect_eq_ok_iff (x := ':') (by decide), run_body_eq_ok_iff, run_pure_eq_ok_iff]
  constructor
  · rintro ⟨n, c₁, ⟨g₀, h₀, hn, r₁, -⟩, _, c₂, ⟨g, hg, r₂⟩, _, _, ⟨rfl, rfl⟩, b, c₃,
      ⟨raw, r₄, hbody, hstop⟩, rfl, rfl⟩
    obtain rfl := h₀.eq_nil r₁ hc
    obtain ⟨k, r₃, ⟨hk, hsolid⟩ | ⟨-, hrest⟩⟩ := exists_reads_skipped c₂
    · have r := r₁.trans (r₂.trans r₃)
      rw [r₄.rest, List.append_assoc, List.singleton_append, solid_body_iff] at hsolid
      refine ⟨n, g, k, raw, b.text, hn, hg, hk, hsolid, hbody, by simpa using r.trans r₄, ?_⟩
      have hpos : (skipped c₂).pos = c.pos + byteLength (n ++ (g ++ ':' :: k)) := by
        simpa using r.pos
      rw [hstop, hpos]
    · rw [r₄.rest] at hrest
      simp at hrest
  · rintro ⟨n, g, k, raw, text, hn, hg, hk, hsolid, hbody, r, rfl⟩
    obtain ⟨c₃, r₃, r₄⟩ := Cursor.Reads.append_iff.1 r
    have hpos := r₃.pos
    rw [show n ++ (g ++ ':' :: k) = n ++ ((g ++ [':']) ++ k) by simp] at r₃
    obtain ⟨c₁, r₁, r₃⟩ := Cursor.Reads.append_iff.1 r₃
    obtain ⟨c₂, r₂, r₃⟩ := Cursor.Reads.append_iff.1 r₃
    have hskip : skipped c₂ = c₃ := by
      refine skipped_of_wholeGap r₃ (.inl ⟨hk, ?_⟩)
      rw [r₄.rest, List.append_assoc, List.singleton_append]
      exact solid_body_iff.2 hsolid
    rw [← hskip] at r₄ hpos
    refine ⟨n, c₁, ⟨[], .nil, hn, r₁, stopsAt_isNameChar (by decide) hg r₂⟩, (), c₂, ⟨g, hg, r₂⟩,
      _, _, ⟨rfl, rfl⟩, ⟨text, (skipped c₂).pos + byteLength raw⟩, c', ⟨raw, r₄, hbody, rfl⟩, ?_,
      rfl⟩
    rw [hpos]

theorem name_keywords : Name "keywords".toList :=
  .intro (by decide) (List.all_eq_true.1 (by decide))

theorem name_ignore : Name "ignore".toList :=
  .intro (by decide) (List.all_eq_true.1 (by decide))

theorem name_userDef : Name "user_def".toList :=
  .intro (by decide) (List.all_eq_true.1 (by decide))

theorem Grammar.Block.head {α : Type} {label t : List Char} {E : List Char → α → Prop}
    {as : List α} (h : Block label E t as) : t.head? = some '[' := by
  cases h
  rfl

/-- The first character of a declaration tells what kind it is. -/
theorem run_statement_eq_ok_iff {x : Char} {kind : RuleKind} {c c' : Cursor}
    (hc : c.StopsAt isGapStart) (hx : c.peek? = some x) :
    (statement x).run c = .ok (kind, c') ↔ ∃ t, c.Reads t c' ∧ Statement c.pos t kind := by
  have hhead : ∀ {y : Char} {t : List Char}, c.Reads t c' → t.head? = some y → y = x := by
    intro y t r hy
    obtain ⟨u, rfl⟩ := List.head?_eq_some_iff.1 hy
    rw [Cursor.peek?, r.rest] at hx
    exact Option.some.inj hx
  constructor
  · intro h
    unfold statement at h
    split at h
    · obtain ⟨n, g, k, raw, text, hn, hg, hk, hstart, hbody, r, rfl⟩ :=
        (run_pattern_eq_ok_iff hc).1 h
      exact ⟨_, r, .pattern hn hg hk hstart hbody⟩
    · split at h
      · exact statement_of_bracketed hc h
      · cases h
  · rintro ⟨t, r, h⟩
    have hbracket : t.head? = some '[' → statement x = bracketed := by
      intro hopen
      obtain rfl := hhead r hopen
      rfl
    cases h with
    | @pattern n g k raw text hn hg hk hstart hbody =>
      have hname : isNameStart x = true := by
        obtain ⟨hy, -⟩ := hn
        rwa [← hhead r rfl]
      rw [statement, if_pos hname]
      exact (run_pattern_eq_ok_iff hc).2 ⟨n, g, k, raw, text, hn, hg, hk, hstart, hbody, r, rfl⟩
    | keywords h =>
      rw [hbracket h.head]
      refine run_bracketed_of_block readsAs_keywordEntry name_keywords (fun span => ?_) h r
      rw [labelled, if_pos rfl]
    | ignore h =>
      rw [hbracket h.head]
      refine run_bracketed_of_block readsAs_ignoreEntry name_ignore (fun span => ?_) h r
      rw [labelled, if_neg (by decide), if_pos rfl]
    | @userCode g₁ g₂ g₃ g₄ n raw text h₁ h₂ h₃ hn h₄ hbody =>
      rw [hbracket List.head?_cons]
      rw [← List.append_assoc, ← List.cons_append] at r
      obtain ⟨c₁, r₁, r₂⟩ := Cursor.Reads.append_iff.1 r
      refine run_bracketed_eq_ok_iff.2 ⟨[], g₁, _, c₁, .nil, h₁, name_userDef, r₁,
        stopsAt_isNameChar (by decide) h₂ r₂, ?_⟩
      rw [labelled, if_neg (by decide), if_neg (by decide), if_pos rfl]
      exact run_userCode_eq_ok_iff.2 ⟨g₂, g₃, n, g₄, raw, text, h₂, h₃, hn, h₄, hbody, rfl, r₂⟩

theorem Grammar.Statement.solid {pos : Nat} {t : List Char} {kind : RuleKind}
    (h : Statement pos t kind) : ∃ x u, t = x :: u ∧ isGapStart x = false := by
  cases h with
  | pattern hn =>
    obtain ⟨hx, -⟩ := hn
    exact ⟨_, _, rfl, isGapStart_of_isNameStart hx⟩
  | keywords h =>
    obtain ⟨u, rfl⟩ := List.head?_eq_some_iff.1 h.head
    exact ⟨'[', u, rfl, by decide⟩
  | ignore h =>
    obtain ⟨u, rfl⟩ := List.head?_eq_some_iff.1 h.head
    exact ⟨'[', u, rfl, by decide⟩
  | userCode => exact ⟨'[', _, rfl, by decide⟩

theorem Solid.stopsAt {c : Cursor} (h : Solid c.rest) : c.StopsAt isGapStart := by
  obtain ⟨x, rest, hrest, hx⟩ := h
  intro y hy
  rw [Cursor.peek?, hrest] at hy
  rwa [← Option.some.inj hy]

theorem run_declaration_of_end {c : Cursor} (hpeek : (skipped c).peek? = none) :
    declaration.run c = .ok (⟨.endOfFile, .point (skipped c).pos⟩, skipped c) := by
  have hhere : (here : RuleReader Cursor).run (skipped c) = .ok (skipped c, skipped c) := rfl
  rw [declaration, run_skip_bind, run_bind_ok hhere, hpeek]
  rfl

theorem run_declaration_of_peek {x : Char} {c : Cursor} (hpeek : (skipped c).peek? = some x) :
    declaration.run c = (do
      let kind ← statement x
      let stop ← here
      return (⟨kind, ⟨(skipped c).pos, stop.pos⟩⟩ : Declaration)).run (skipped c) := by
  have hhere : (here : RuleReader Cursor).run (skipped c) = .ok (skipped c, skipped c) := rfl
  rw [declaration, run_skip_bind, run_bind_ok hhere, hpeek]

/-- The end of the file behind the last gap, or a declaration behind a gap. -/
theorem run_declaration_eq_ok_iff {d : Declaration} {c c' : Cursor} :
    declaration.run c = .ok (d, c') ↔
      (∃ g, LastGap g ∧ c.Reads g c' ∧ c'.rest = [] ∧ d = ⟨.endOfFile, .point c'.pos⟩) ∨
      ∃ g t kind, Gap g ∧ Statement (c.pos + byteLength g) t kind ∧ c.Reads (g ++ t) c' ∧
        d = ⟨kind, ⟨c.pos + byteLength g, c.pos + byteLength g + byteLength t⟩⟩ := by
  constructor
  · intro h
    obtain ⟨g, r, hgap⟩ := exists_reads_skipped c
    cases hpeek : (skipped c).peek? with
    | none =>
      have hrest : (skipped c).rest = [] := List.head?_eq_none_iff.1 hpeek
      rw [run_declaration_of_end hpeek] at h
      obtain ⟨rfl, rfl⟩ := Prod.mk.inj (Except.ok.inj h)
      rcases hgap with ⟨-, x, rest, hsolid, -⟩ | ⟨hg, -⟩
      · rw [hrest] at hsolid
        cases hsolid
      · exact .inl ⟨g, hg, r, hrest, rfl⟩
    | some x =>
      rw [run_declaration_of_peek hpeek] at h
      obtain ⟨kind, c₁, hkind, h⟩ := run_bind_eq_ok_iff.1 h
      obtain ⟨stop, c₂, hstop, h⟩ := run_bind_eq_ok_iff.1 h
      obtain ⟨rfl, rfl⟩ := run_here_eq_ok_iff.1 hstop
      obtain ⟨rfl, rfl⟩ := run_pure_eq_ok_iff.1 h
      rcases hgap with ⟨hg, hsolid⟩ | ⟨-, hrest⟩
      · obtain ⟨t, rt, ht⟩ := (run_statement_eq_ok_iff hsolid.stopsAt hpeek).1 hkind
        rw [r.pos] at ht
        refine .inr ⟨g, t, kind, hg, ht, r.trans rt, ?_⟩
        rw [rt.pos, r.pos]
      · rw [Cursor.peek?, hrest] at hpeek
        cases hpeek
  · rintro (⟨g, hg, r, hrest, rfl⟩ | ⟨g, t, kind, hg, ht, r, rfl⟩)
    · have hskip : skipped c = c' := skipped_of_wholeGap r (.inr ⟨hg, hrest⟩)
      have hpeek : (skipped c).peek? = none := by
        rw [hskip, Cursor.peek?, hrest]
        rfl
      rw [run_declaration_of_end hpeek, hskip]
    · obtain ⟨c₁, rg, rt⟩ := Cursor.Reads.append_iff.1 r
      obtain ⟨x, u, rfl, hx⟩ := ht.solid
      have hsolid : Solid c₁.rest := ⟨x, _, rt.rest, hx⟩
      have hskip : skipped c = c₁ := skipped_of_wholeGap rg (.inl ⟨hg, hsolid⟩)
      have hpeek : c₁.peek? = some x := by
        rw [Cursor.peek?, rt.rest]
        rfl
      rw [← rg.pos] at ht ⊢
      have hkind := (run_statement_eq_ok_iff hsolid.stopsAt hpeek).2 ⟨_, rt, ht⟩
      rw [← hskip] at hpeek
      rw [run_declaration_of_peek hpeek, hskip, run_bind_ok hkind,
        run_bind_ok (run_here_eq_ok_iff.2 ⟨rfl, rfl⟩), ← rt.pos]
      rfl

/-! ### Files -/

theorem Grammar.Statement.isEnd {pos : Nat} {t : List Char} {kind : RuleKind} {span : Span}
    (h : Statement pos t kind) : Declaration.isEnd ⟨kind, span⟩ = false := by
  cases h <;> rfl

theorem declarationsFrom_eq (c : Cursor) : declarationsFrom c =
    match declaration.run c with
    | .error e => .error e
    | .ok (d, c') => if d.isEnd then .ok [] else (declarationsFrom c').map (d :: ·) := by
  rw [declarationsFrom]
  split
  · rename_i herror
    rw [herror]
  · rename_i d c' hok
    simp only [hok]
    split
    · rename_i hend
      rw [if_pos hend]
    · rename_i hend
      rw [if_neg (by simp [hend])]
      cases declarationsFrom c' <;> rfl

/-- A declaration does not depend on what follows it. -/
theorem declarationsFrom_statement {pos : Nat} {g t : List Char} {kind : RuleKind} (hg : Gap g)
    (ht : Statement (pos + byteLength g) t kind) (rest : List Char) :
    declarationsFrom ⟨pos, g ++ t ++ rest⟩ =
      (declarationsFrom ⟨pos + byteLength (g ++ t), rest⟩).map
        (⟨kind, ⟨pos + byteLength g, pos + byteLength g + byteLength t⟩⟩ :: ·) := by
  have hread : Cursor.Reads ⟨pos, g ++ t ++ rest⟩ (g ++ t) ⟨pos + byteLength (g ++ t), rest⟩ :=
    ⟨rfl, rfl⟩
  rw [declarationsFrom_eq, run_declaration_eq_ok_iff.2 (.inr ⟨g, t, kind, hg, ht, hread, rfl⟩)]
  simp only [ht.isEnd, Bool.false_eq_true, if_false]

theorem file_of_declarationsFrom {c : Cursor} {ds : List Declaration}
    (h : declarationsFrom c = .ok ds) : File c.pos c.rest ds := by
  fun_induction declarationsFrom c generalizing ds with
  | case1 => cases h
  | case2 c d c' hd hend =>
    obtain rfl := Except.ok.inj h
    rcases run_declaration_eq_ok_iff.1 hd with ⟨g, hg, r, hrest, rfl⟩ | ⟨g, t, kind, hg, ht, r, rfl⟩
    · rw [r.rest, hrest, List.append_nil]
      exact .done hg
    · rw [ht.isEnd] at hend
      cases hend
  | case3 => cases h
  | case4 c d c' hd hend _ ds' hds' ih =>
    obtain rfl := Except.ok.inj h
    rcases run_declaration_eq_ok_iff.1 hd with ⟨g, hg, r, hrest, rfl⟩ | ⟨g, t, kind, hg, ht, r, rfl⟩
    · cases hend
    · have hfile := ih hds'
      rw [r.pos, byteLength_append, ← Nat.add_assoc] at hfile
      rw [r.rest, List.append_assoc]
      exact .more hg ht hfile

theorem declarationsFrom_of_end {d : Declaration} {c c' : Cursor}
    (h : declaration.run c = .ok (d, c')) (hd : d.isEnd = true) : declarationsFrom c = .ok [] := by
  rw [declarationsFrom]
  split
  · rename_i e herror
    rw [h] at herror
    cases herror
  · rename_i d' c₁ hok
    rw [h] at hok
    obtain ⟨rfl, rfl⟩ := Prod.mk.inj (Except.ok.inj hok)
    split
    · rfl
    · rename_i hfalse
      rw [hd] at hfalse
      cases hfalse

theorem declarationsFrom_of_next {d : Declaration} {ds : List Declaration} {c c' : Cursor}
    (h : declaration.run c = .ok (d, c')) (hd : d.isEnd = false)
    (hrest : declarationsFrom c' = .ok ds) : declarationsFrom c = .ok (d :: ds) := by
  rw [declarationsFrom]
  split
  · rename_i e herror
    rw [h] at herror
    cases herror
  · rename_i d' c₁ hok
    rw [h] at hok
    obtain ⟨rfl, rfl⟩ := Prod.mk.inj (Except.ok.inj hok)
    split
    · rename_i htrue
      rw [hd] at htrue
      cases htrue
    · simp only [hrest]

theorem declarationsFrom_of_file {pos : Nat} {cs : List Char} {ds : List Declaration}
    (h : File pos cs ds) : declarationsFrom ⟨pos, cs⟩ = .ok ds := by
  induction h with
  | @done pos g hg =>
    have hread : Cursor.Reads ⟨pos, g⟩ g ⟨pos + byteLength g, []⟩ := ⟨by simp, rfl⟩
    exact declarationsFrom_of_end
      (run_declaration_eq_ok_iff.2 (.inl ⟨g, hg, hread, rfl, rfl⟩)) rfl
  | @more pos g t rest kind ds hg ht _ ih =>
    have hread : Cursor.Reads ⟨pos, g ++ (t ++ rest)⟩ (g ++ t)
        ⟨pos + byteLength g + byteLength t, rest⟩ :=
      ⟨by simp, by simp [Nat.add_assoc]⟩
    exact declarationsFrom_of_next
      (run_declaration_eq_ok_iff.2 (.inr ⟨g, t, kind, hg, ht, hread, rfl⟩)) ht.isEnd ih

/-- Reading succeeds on just the texts of the grammar, and gives the declarations that they make,
with the places where they stand. -/
theorem parse_eq_ok_iff_file (source : String) (ds : List Declaration) :
    parse source = .ok ds ↔ File 0 source.toList ds := by
  constructor
  · intro h
    exact file_of_declarationsFrom h
  · intro h
    exact declarationsFrom_of_file h

/-- A comment before the declaration, and a dollar sign in its body. -/
example : parse "# two\nA : x\\$y$" = .ok [⟨.pattern "A" "x$y" ⟨10, 14⟩, ⟨6, 15⟩⟩] := by
  decide +kernel

end LexerGen.Rules
