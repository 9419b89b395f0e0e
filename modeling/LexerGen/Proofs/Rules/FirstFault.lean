import LexerGen.Proofs.Rules.Faults

/-! The first fault of a rule file. Every reader of rule files diagnoses its text, from the tokens
up to the declarations, so the error of a whole file stands at the first place where the file cannot
go on. -/

namespace LexerGen.Rules

open Text Reader Grammar

/-! ### Tokens -/

theorem takes_expect {x : Char} (hx : isGapStart x = false) :
    Takes (expect x) (fun _ t _ => ∃ g, Gap g ∧ t = g ++ [x]) (fun _ => false) where
  run_eq_ok_iff := by
    rintro ⟨⟩ c c'
    rw [run_expect_eq_ok_iff hx]
    constructor
    · rintro ⟨g, hg, h⟩
      exact ⟨_, ⟨g, hg, rfl⟩, h, fun _ _ => rfl⟩
    · rintro ⟨_, ⟨g, hg, rfl⟩, h, -⟩
      exact ⟨g, hg, h⟩
  newline := rfl

theorem expects_expect (x : Char) : Expects (expect x) (fun y => y = x) (quoted x) :=
  (expects_sign (fun y => y = x) (quoted x)).bind fun _ _ _ h => by cases h

section

variable {r : RuleReader (List Char)} {first more : Char → Bool}

theorem takes_token (hrun : ∀ {n : List Char} {c c' : Cursor}, r.run c = .ok (n, c') ↔
      ∃ g, Gap g ∧ Run first more n ∧ c.Reads (g ++ n) c' ∧ c'.StopsAt more)
    (hnewline : more '\n' = false) :
    Takes r (fun _ t n => ∃ g, Gap g ∧ Run first more n ∧ t = g ++ n) more where
  run_eq_ok_iff {n c c'} := by
    rw [hrun]
    constructor
    · rintro ⟨g, hg, hn, h, hstop⟩
      exact ⟨_, ⟨g, hg, hn, rfl⟩, h, hstop⟩
    · rintro ⟨_, ⟨g, hg, hn, rfl⟩, h, hstop⟩
      exact ⟨g, hg, hn, h, hstop⟩
  newline := hnewline

end

theorem takes_name :
    Takes name (fun _ t n => ∃ g, Gap g ∧ Name n ∧ t = g ++ n) isNameChar :=
  takes_token run_name_eq_ok_iff (by decide)

theorem takes_word :
    Takes word (fun _ t w => ∃ g, Gap g ∧ Word w ∧ t = g ++ w) isWordChar :=
  takes_token run_word_eq_ok_iff (by decide +kernel)

theorem expects_name : Expects name isNameStart "a name" :=
  (expects_sign isNameStart "a name").bind fun _ _ _ h => by cases h

theorem expects_word : Expects word isWordChar "a keyword" :=
  (expects_sign isWordChar "a keyword").bind fun _ _ _ h => by cases h

theorem guides_expect {x : Char} (hx : isGapStart x = false) : Guides (expect x) fun _ => True :=
  (expects_expect x).guides <|
    (takes_expect hx).starts fun _ => ⟨[x], (), ⟨['\n'], gap_newline, rfl⟩, trivial⟩

theorem guides_name : Guides name fun _ => True :=
  expects_name.guides <| takes_name.starts fun _ =>
    ⟨['A'], ['A'], ⟨['\n'], gap_newline, .intro (by decide) (by simp), rfl⟩, trivial⟩

theorem guides_word : Guides word fun _ => True :=
  expects_word.guides <| takes_word.starts fun _ =>
    ⟨['a'], ['a'], ⟨['\n'], gap_newline, .intro (by decide +kernel) (by simp), rfl⟩, trivial⟩

section

variable {α : Type} {good : α → Prop}

theorem guides_expect_bind {x : Char} {k : Unit → RuleReader α} (hx : isGapStart x = false)
    (hk : Guides (k ()) good) : Guides (expect x >>= k) good :=
  (guides_expect hx).bind (takes_expect hx).stable fun _ => hk

theorem guides_name_bind {k : List Char → RuleReader α} (hk : ∀ n, Guides (k n) good) :
    Guides (name >>= k) good := guides_name.bind takes_name.stable hk

end

/-! ### Bodies -/

/-- A body without an end becomes one with a line end and a terminator: a backslash at the end of
the text is not one before the terminator then. -/
theorem exists_bodyText_of_bodyFrom {seen : List Char} {pos : Nat} {cs : List Char}
    (h : bodyFrom seen pos cs = none) : ∃ text, BodyText (cs ++ ['\n']) text := by
  fun_induction bodyFrom seen pos cs with
  | case1 => exact ⟨['\n'], .char (by decide) (by decide) .nil⟩
  | case2 seen pos rest ih =>
    obtain ⟨text, htext⟩ := ih h
    exact ⟨_, .dollar htext⟩
  | case3 => cases h
  | case4 seen pos x rest hescaped hx ih =>
    obtain ⟨text, htext⟩ := ih h
    refine ⟨_, .char hx (fun hback => ?_) htext⟩
    cases rest with
    | nil => exact ⟨'\n', rfl, by decide⟩
    | cons y rest =>
      refine ⟨y, rfl, ?_⟩
      rintro rfl
      exact hescaped rest hback rfl

theorem run_body_eq_error_iff {c : Cursor} {e : RuleError} :
    body.run c = .error e ↔ bodyFrom [] c.pos c.rest = none ∧
      e = .unterminated c.pos (c.pos + byteLength c.rest) := by
  simp only [body]
  cases bodyFrom [] c.pos c.rest <;> simp [eq_comm]

theorem takes_body : Takes body (fun pos t b => ∃ raw, t = raw ++ ['$'] ∧ BodyText raw b.text ∧
    b.stop = pos + byteLength raw) (fun _ => false) where
  run_eq_ok_iff {b c c'} := by
    rw [run_body_eq_ok_iff]
    constructor
    · rintro ⟨raw, h, hbody, hstop⟩
      exact ⟨_, ⟨raw, rfl, hbody, hstop⟩, h, fun _ _ => rfl⟩
    · rintro ⟨_, ⟨raw, rfl, hbody, hstop⟩, h, -⟩
      exact ⟨raw, h, hbody, hstop⟩
  newline := rfl

theorem guides_body : Guides body fun _ => True where
  starts := takes_body.starts fun pos =>
    ⟨['$'], ⟨['\n'], pos + byteLength ['\n']⟩,
      ⟨['\n'], rfl, .char (by decide) (by decide) .nil, rfl⟩, trivial⟩
  diagnoses c e he _ := by
    obtain ⟨hnone, rfl⟩ := run_body_eq_error_iff.1 he
    obtain ⟨text, htext⟩ := exists_bodyText_of_bodyFrom hnone
    have hopens : Opens ['\n', '$'] := .inr rfl
    have hbody : ∃ raw, c.rest ++ ['\n', '$'] = raw ++ ['$'] ∧ BodyText raw text ∧
        c.pos + byteLength (c.rest ++ ['\n']) = c.pos + byteLength raw :=
      ⟨c.rest ++ ['\n'], by simp, htext, rfl⟩
    have hcompletes : Completes body (fun _ => True) c.pos c.rest :=
      takes_body.completes (a := ⟨text, _⟩) hopens trivial hbody
    refine ⟨c.rest, ⟨Nat.le_add_right _ _, rfl, rfl⟩, hcompletes, ?_⟩
    rintro cs ⟨-, -, rfl⟩
    exact he

/-! ### Lists -/

theorem stable_keywordEntry : Stable keywordEntry :=
  takes_name.stable.bind fun _ => (takes_expect (by decide)).stable.bind fun _ =>
    takes_word.stable.bind fun _ => stable_pure _

theorem guides_keywordEntry : Guides keywordEntry fun _ => True :=
  guides_name_bind fun _ => guides_expect_bind (by decide) <|
    guides_word.bind takes_word.stable fun _ => guides_pure trivial

theorem stable_ignoreEntry : Stable ignoreEntry := takes_name.stable.bind fun _ => stable_pure _

theorem guides_ignoreEntry : Guides ignoreEntry fun _ => True :=
  guides_name_bind fun _ => guides_pure trivial

theorem takes_separator : Takes separator
    (fun _ t x => (x = ',' ∨ x = '\x7d') ∧ ∃ g, Gap g ∧ t = g ++ [x]) (fun _ => false) where
  run_eq_ok_iff {x c c'} := by
    have hsolid : x = ',' ∨ x = '\x7d' → isGapStart x = false := by
      rintro (rfl | rfl) <;> decide
    rw [separator, run_skip_bind, run_satisfy_eq_ok_iff, Bool.or_eq_true, decide_eq_true_eq,
      decide_eq_true_eq]
    constructor
    · rintro ⟨hx, h⟩
      obtain ⟨g, hg, h⟩ := (skipped_reads_iff (hsolid hx)).1 h
      exact ⟨_, ⟨hx, g, hg, rfl⟩, h, fun _ _ => rfl⟩
    · rintro ⟨_, ⟨hx, g, hg, rfl⟩, h, -⟩
      exact ⟨hx, (skipped_reads_iff (hsolid hx)).2 ⟨g, hg, h⟩⟩
  newline := rfl

theorem guides_separator : Guides separator fun _ => True :=
  (expects_sign _ _).guides <| takes_separator.starts fun _ =>
    ⟨[','], ',', ⟨.inl rfl, ['\n'], gap_newline, rfl⟩, trivial⟩

section

variable {α : Type} {entry : RuleReader α} {E : List Char → α → Prop} {more : Char → Bool}

theorem takes_entries (he : ReadsAs entry E more) :
    Takes (entries entry) (fun _ t as => Entries E t as) (fun _ => false) where
  run_eq_ok_iff {as c c'} := by
    constructor
    · intro h
      obtain ⟨t, hreads, ht⟩ := entries_of_entriesFrom he h
      exact ⟨t, ht, hreads, fun _ _ => rfl⟩
    · rintro ⟨t, ht, hreads, -⟩
      exact entriesFrom_of_entries he hreads ht
  newline := rfl

theorem skipsFirst_entries (hskips : SkipsFirst entry) : SkipsFirst (entries entry) := by
  intro c
  have hpeek : (skipped (skipped c)).peek? = (skipped c).peek? := by rw [skipped_skipped]
  by_cases hclose : (skipped c).peek? = some '\x7d'
  · rw [run_entries_of_close hclose, run_entries_of_close (hpeek.trans hclose), skipped_skipped]
  · rw [run_entries_of_open hclose, run_entries_of_open (by rwa [hpeek])]
    exact hskips.bind c

theorem starts_entries (he : ReadsAs entry E more) : Starts (entries entry) fun _ => True :=
  (takes_entries he).starts fun _ => ⟨['\x7d'], [], .nil gap_newline, trivial⟩

/-- The entries behind a comma are further on. -/
theorem diagnoses_furtherEntries (hstable : Stable entry) (hentry : Guides entry fun _ => True)
    (hstarts : Starts (entries entry) fun _ => True) {c : Cursor}
    (hmore : ∀ c', c.Advances c' → Diagnoses (entries entry) (fun _ => True) c') :
    Diagnoses (furtherEntries entry) (fun _ => True) c := by
  have hrest : ∀ (a : α) (x : Char), Starts (if x = ',' then do
      let as ← entries entry
      return a :: as
    else return [a]) fun _ => True := by
    intro a x
    split
    · exact hstarts.bind fun _ _ => starts_pure trivial
    · exact starts_pure trivial
  refine (hentry.diagnoses c).bind hstable
    (fun a _ => guides_separator.starts.bind fun x _ => hrest a x) fun a c₁ ha => ?_
  refine (guides_separator.diagnoses c₁).bind takes_separator.stable (fun x _ => hrest a x)
    fun x c₂ hx => ?_
  split
  · have hadvances := (entry.moves ha).trans_advances (consumes_separator hx)
    exact (hmore c₂ hadvances).bind_total (fun _ _ _ h => by cases h)
      fun _ _ => starts_pure trivial
  · exact (guides_pure trivial).diagnoses c₂

theorem guides_entries (he : ReadsAs entry E more) (hskips : SkipsFirst entry)
    (hstable : Stable entry) (hentry : Guides entry fun _ => True) :
    Guides (entries entry) fun _ => True := by
  refine ⟨starts_entries he, fun c => ?_⟩
  induction hlength : c.rest.length using Nat.strong_induction_on generalizing c with
  | _ k ih =>
    refine .of_skipped (skipsFirst_entries hskips) ?_
    by_cases hopen : (skipped c).peek? = some '\x7d'
    · intro e he
      rw [skipsFirst_entries hskips, run_entries_of_close hopen] at he
      cases he
    · have hfurther : Diagnoses (furtherEntries entry) (fun _ => True) (skipped c) := by
        refine diagnoses_furtherEntries hstable hentry (starts_entries he) fun c' hc' => ?_
        have hlt := ((moves_skipped c).trans_advances hc').length_lt
        exact ih c'.rest.length (by omega) c' rfl
      refine hfurther.of_head (starts_entries he) fun cs hcs => run_entries_of_open ?_
      rw [skipped_of_head?_eq hcs]
      exact fun h => hopen (hcs.symm.trans h)

theorem stable_braced (he : ReadsAs entry E more) : Stable (braced entry) :=
  (takes_expect (by decide)).stable.bind fun _ => (takes_entries he).stable

theorem guides_block (he : ReadsAs entry E more) (hskips : SkipsFirst entry)
    (hstable : Stable entry) (hentry : Guides entry fun _ => True) (f : List α → RuleKind) :
    Guides (do
      expect ']'
      let as ← braced entry
      expect '$'
      return f as) fun _ => True :=
  have hbraced : Guides (braced entry) fun _ => True :=
    guides_expect_bind (by decide) (guides_entries he hskips hstable hentry)
  guides_expect_bind (by decide) <| hbraced.bind (stable_braced he) fun _ =>
    guides_expect_bind (by decide) (guides_pure trivial)

end

/-! ### Declarations -/

theorem guides_pattern : Guides pattern fun _ => True := by
  refine guides_name_bind fun tag => guides_expect_bind (by decide) ?_
  have hbody : ∀ start, Guides (do
      let b ← body
      return RuleKind.pattern (.ofList tag) (.ofList b.text) ⟨start, b.stop⟩) fun _ => True :=
    fun _ => guides_body.bind takes_body.stable fun _ => guides_pure trivial
  have hempty : ∀ start pos, Completes (do
      let b ← body
      return RuleKind.pattern (.ofList tag) (.ofList b.text) ⟨start, b.stop⟩) (fun _ => True) pos
      ['$'] := by
    intro start pos
    have hcompletes : Completes body (fun _ => True) pos ['$'] :=
      takes_body.completes (a := ⟨[], pos⟩) (.inl rfl) trivial ⟨[], rfl, .nil, rfl⟩
    exact hcompletes.bind fun _ _ => starts_pure trivial
  exact guides_skip_here_bind (by decide) (fun pos => hempty pos pos)
    fun start => (hbody start).diagnoses

theorem guides_userCode : Guides (do
    expect ','
    let tag ← name
    expect ']'
    let b ← body
    return RuleKind.userCode (.ofList tag) (.ofList b.text)) fun _ => True :=
  guides_expect_bind (by decide) <| guides_name_bind fun _ => guides_expect_bind (by decide) <|
    guides_body.bind takes_body.stable fun _ => guides_pure trivial

theorem guides_ignore : Guides (do
    expect ']'
    let tags ← braced ignoreEntry
    expect '$'
    return RuleKind.ignore tags) fun _ => True :=
  guides_block readsAs_ignoreEntry expects_name.skips.bind stable_ignoreEntry guides_ignoreEntry _

theorem starts_labelled_ignore (span : Span) :
    Starts (labelled "ignore".toList span) fun _ => True := by
  rw [labelled, if_neg (by decide), if_pos rfl]
  exact guides_ignore.starts

theorem diagnoses_labelled (label : List Char) (span : Span) (c : Cursor) :
    Diagnoses (labelled label span) (fun _ => True) c := by
  unfold labelled
  split_ifs
  · exact (guides_block readsAs_keywordEntry expects_name.skips.bind stable_keywordEntry
      guides_keywordEntry _).diagnoses c
  · exact guides_ignore.diagnoses c
  · exact guides_userCode.diagnoses c
  · intro e he hlabel
    exact absurd (Except.error.inj he).symm (hlabel _ _)

theorem guides_bracketed : Guides bracketed fun _ => True := by
  refine guides_expect_bind (by decide) ?_
  -- Where a label is missing, `ignore` can stand.
  have hname : Guides name fun label => label = "ignore".toList :=
    expects_name.guides <| takes_name.starts fun _ =>
      ⟨_, _, ⟨['\n'], gap_newline, name_ignore, rfl⟩, rfl⟩
  have hcompletes : ∀ pos, Completes name (fun label => label = "ignore".toList) pos
      ['i', 'g', 'n', 'o', 'r', 'e'] := fun _ =>
    takes_name.completes (.inl rfl) rfl ⟨[], .nil, name_ignore, rfl⟩
  have hstarts : ∀ start label, label = "ignore".toList →
      Starts (do
        let stop ← here
        labelled label ⟨start, stop.pos⟩) fun _ => True := by
    rintro start _ rfl pos
    exact starts_labelled_ignore ⟨start, pos⟩ pos
  have hlabelled : ∀ start c, Diagnoses (do
      let label ← name
      let stop ← here
      labelled label ⟨start, stop.pos⟩) (fun _ => True) c := by
    intro start c
    exact (hname.diagnoses c).bind takes_name.stable (hstarts start) fun label c₁ _ =>
      diagnoses_here_bind (fun stop => diagnoses_labelled label ⟨start, stop⟩) c₁
  exact guides_skip_here_bind (by decide) (fun pos => (hcompletes pos).bind (hstarts pos)) hlabelled

theorem run_declaration_of_head {x : Char} {c : Cursor} {cs : List Char}
    (hx : (skipped c).peek? = some x) (hcs : cs.head? = (skipped c).rest.head?) :
    declaration.run ⟨(skipped c).pos, cs⟩ = (do
      let kind ← statement x
      let stop ← here
      return (⟨kind, ⟨(skipped c).pos, stop.pos⟩⟩ : Declaration)).run ⟨(skipped c).pos, cs⟩ := by
  have hpeek : (skipped ⟨(skipped c).pos, cs⟩).peek? = some x := by
    rw [skipped_of_head?_eq hcs]
    exact hcs.trans hx
  rw [run_declaration_of_peek hpeek, skipped_of_head?_eq hcs]

theorem starts_declaration : Starts declaration fun _ => True := by
  intro pos
  have hname : Name ['A'] := .intro (by decide) (by simp)
  obtain ⟨kind, ht⟩ : ∃ kind, Statement (pos + byteLength ['\n']) ['A', ':', '$'] kind :=
    ⟨_, .pattern hname .nil .nil (by simp) .nil⟩
  refine ⟨['\n', 'A', ':', '$'], ⟨kind, ⟨pos + 1, pos + 4⟩⟩, .inr rfl, trivial, fun rest _ => ?_⟩
  exact run_declaration_eq_ok_iff.2 (.inr ⟨['\n'], _, kind, gap_newline, ht, ⟨rfl, rfl⟩, rfl⟩)

/-- A character that starts no declaration is a fault where it stands. -/
theorem diagnoses_declaration_of_unexpected {x : Char} {c : Cursor}
    (hx : (skipped c).peek? = some x) (hname : isNameStart x = false) (hbracket : x ≠ '[') :
    Diagnoses declaration (fun _ => True) (skipped c) := by
  have hunexpected : ∀ cs, cs.head? = (skipped c).rest.head? →
      declaration.run ⟨(skipped c).pos, cs⟩ = .error (.unexpected x (skipped c).pos) := by
    intro cs hcs
    rw [run_declaration_of_head hx hcs, statement, if_neg (by simp [hname]), if_neg hbracket]
    rfl
  intro e he _
  obtain rfl := Except.error.inj (he.symm.trans (hunexpected _ rfl))
  obtain ⟨rest, hrest⟩ := List.head?_eq_some_iff.1 hx
  have hfault : Fault (skipped c).pos [] (skipped c).rest (.unexpected x (skipped c).pos) :=
    ⟨rfl, rest, hrest⟩
  exact ⟨[], hfault, starts_declaration _, fun cs hcs => hunexpected cs (hfault.head?_eq hcs)⟩

theorem guides_declaration : Guides declaration fun _ => True := by
  refine ⟨starts_declaration, fun c => .of_skipped (skipsFirst_skip_bind _) ?_⟩
  cases hpeek : (skipped c).peek? with
  | none =>
    intro e he
    rw [← skipped_skipped] at hpeek
    rw [run_declaration_of_end hpeek] at he
    cases he
  | some x =>
    have hkind : Diagnoses (statement x) (fun _ => True) (skipped c) →
        Diagnoses declaration (fun _ => True) (skipped c) := by
      intro h
      refine Diagnoses.of_head (h.bind_total (fun _ _ _ herror => by cases herror) ?_)
        starts_declaration fun cs hcs => run_declaration_of_head hpeek hcs
      exact fun kind _ pos =>
        ⟨[], ⟨kind, ⟨(skipped c).pos, pos⟩⟩, .inl rfl, trivial, fun _ _ => rfl⟩
    cases hname : isNameStart x with
    | true =>
      refine hkind ?_
      rw [statement, if_pos hname]
      exact guides_pattern.diagnoses _
    | false =>
      by_cases hbracket : x = '['
      · refine hkind ?_
        rw [statement, if_neg (by simp [hname]), if_pos hbracket]
        exact guides_bracketed.diagnoses _
      · exact diagnoses_declaration_of_unexpected hpeek hname hbracket

/-! ### Files -/

/-- The error of the file at `c` stands behind `known`, which can be completed, and is the same
whatever follows the character that was found. -/
structure FileFaultsAt (c : Cursor) (e : RuleError) (known : List Char) : Prop where
  fault : Fault c.pos known c.rest e
  completes : ∃ t ds, declarationsFrom ⟨c.pos, known ++ t⟩ = .ok ds
  settled : ∀ cs, Fault c.pos known cs e → declarationsFrom ⟨c.pos, cs⟩ = .error e

section

variable {c c' : Cursor} {e : RuleError} {known : List Char}

/-- A line end behind the completed declaration completes the file. -/
theorem FaultsAt.file (h : FaultsAt declaration (fun _ => True) c e known) :
    FileFaultsAt c e known where
  fault := h.fault
  completes := by
    obtain ⟨t, d, -, -, hrun⟩ := h.completes
    have hrun := hrun ['\n'] rfl
    have hend : d.isEnd = false := by
      rcases run_declaration_eq_ok_iff.1 hrun with ⟨-, -, -, hnil, -⟩ | ⟨_, _, _, -, ht, -, rfl⟩
      · cases hnil
      · exact ht.isEnd
    exact ⟨_, _, declarationsFrom_of_next hrun hend
      (declarationsFrom_of_file (.done (.gap gap_newline)))⟩
  settled cs hcs := by rw [declarationsFrom_eq, h.settled cs hcs]

theorem FileFaultsAt.behind {g t : List Char} {kind : RuleKind} (hg : Gap g)
    (ht : Statement (c.pos + byteLength g) t kind) (r : c.Reads (g ++ t) c')
    (h : FileFaultsAt c' e known) : FileFaultsAt c e (g ++ t ++ known) := by
  have hfault : ∀ cs, Fault c.pos (g ++ t ++ known) cs e ↔
      ∃ cs', cs = g ++ t ++ cs' ∧ Fault c'.pos known cs' e := by
    intro cs
    rw [fault_append_iff, ← r.pos]
  refine ⟨(hfault _).2 ⟨_, r.rest, h.fault⟩, ?_, fun cs hcs => ?_⟩
  · obtain ⟨u, ds, hds⟩ := h.completes
    have hnext := declarationsFrom_statement hg ht (known ++ u)
    rw [← r.pos, hds, ← List.append_assoc] at hnext
    exact ⟨u, _, hnext⟩
  · obtain ⟨cs', rfl, hcs'⟩ := (hfault cs).1 hcs
    rw [declarationsFrom_statement hg ht, ← r.pos, h.settled cs' hcs']
    rfl

theorem exists_fileFaultsAt (h : declarationsFrom c = .error e)
    (hlabel : ∀ label span, e ≠ .invalidLabel label span) : ∃ known, FileFaultsAt c e known := by
  fun_induction declarationsFrom c with
  | case1 c e' hd =>
    obtain rfl := Except.error.inj h
    obtain ⟨known, hknown⟩ := guides_declaration.diagnoses c e' hd hlabel
    exact ⟨known, hknown.file⟩
  | case2 => cases h
  | case3 c d c' hd hend _ e' herror ih =>
    obtain rfl := Except.error.inj h
    obtain ⟨known, hknown⟩ := ih herror
    rcases run_declaration_eq_ok_iff.1 hd with ⟨-, -, -, -, rfl⟩ | ⟨g, t, kind, hg, ht, r, -⟩
    · cases hend
    · exact ⟨_, hknown.behind hg ht r⟩
  | case4 => cases h

end

theorem exists_fault_of_parse {source : String} {e : RuleError} (h : parse source = .error e)
    (hlabel : ∀ label span, e ≠ .invalidLabel label span) :
    ∃ known : String, Fault 0 known.toList source.toList e ∧
      (∃ t ds, parse (known ++ t) = .ok ds) ∧
      ∀ s : String, Fault 0 known.toList s.toList e → parse s = .error e := by
  obtain ⟨known, hfault, ⟨t, ds, hds⟩, hsettled⟩ := exists_fileFaultsAt h hlabel
  refine ⟨.ofList known, ?_, ⟨.ofList t, ds, ?_⟩, fun s hs => ?_⟩
  · rw [String.toList_ofList]
    exact hfault
  · rw [parse, String.toList_append, String.toList_ofList, String.toList_ofList]
    exact hds
  · rw [String.toList_ofList] at hs
    exact hsettled s.toList hs

/-- An error of a rule file is about the first place where the file cannot go on: what stands before
can be completed, and behind a character that was found there nothing matters. -/
theorem parse_error_place {source : String} {e : RuleError} (h : parse source = .error e) :
    match e with
    | .expectedFound _ x _ | .unexpected x _ =>
      ∃ before after : String, source = before ++ .singleton x ++ after ∧
        e.span = ⟨byteLength before.toList, byteLength (before ++ .singleton x).toList⟩ ∧
        (∃ t ds, parse (before ++ t) = .ok ds) ∧ ∀ t, parse (before ++ .singleton x ++ t) = .error e
    | .missing _ _ =>
      e.span = .point (byteLength source.toList) ∧ ∃ t ds, parse (source ++ t) = .ok ds
    | .unterminated start _ =>
      e.span = .point start ∧ start ≤ byteLength source.toList ∧
        e.diagnostic.labels.map (·.span) = [e.span, ⟨start, byteLength source.toList⟩] ∧
        ∃ t ds, parse (source ++ t) = .ok ds
    | .invalidLabel _ _ => True := by
  cases e with
  | expectedFound what x p | unexpected x p =>
    obtain ⟨before, ⟨hp, after, hafter⟩, hcompletes, hsettled⟩ := exists_fault_of_parse h (by simp)
    have hsource : source = before ++ .singleton x ++ .ofList after := by
      rw [← String.toList_inj, hafter]
      simp
    refine ⟨before, .ofList after, hsource, ?_, hcompletes, fun t => hsettled _ ⟨hp, t.toList, ?_⟩⟩
    · simp [RuleError.span, Span.ofChar, hp]
    · simp
  | missing what p =>
    obtain ⟨known, ⟨hp, hknown⟩, hcompletes, -⟩ := exists_fault_of_parse h (by simp)
    obtain rfl := String.toList_inj.1 hknown
    refine ⟨?_, hcompletes⟩
    simp [RuleError.span, hp]
  | unterminated start stop =>
    obtain ⟨known, ⟨hle, hstop, hknown⟩, hcompletes, -⟩ := exists_fault_of_parse h (by simp)
    obtain rfl := String.toList_inj.1 hknown
    rw [Nat.zero_add] at hstop
    subst hstop
    exact ⟨rfl, hle, rfl, hcompletes⟩
  | invalidLabel label span => trivial

/-- A character in a list, past a comment, where a comma is missing. -/
theorem parse_error_place_list :
    parse "A:a$\n[ignore]\x7bA # one\n?B\x7d$" =
      .error (.expectedFound "',' or '\x7d'" '?' 22) ∧
    ∃ before after : String,
      "A:a$\n[ignore]\x7bA # one\n?B\x7d$" = before ++ .singleton '?' ++ after ∧
      RuleError.span (.expectedFound "',' or '\x7d'" '?' 22) =
        ⟨byteLength before.toList, byteLength (before ++ .singleton '?').toList⟩ ∧
      (∃ t ds, parse (before ++ t) = .ok ds) ∧
      ∀ t, parse (before ++ .singleton '?' ++ t) =
        .error (.expectedFound "',' or '\x7d'" '?' 22) := by
  have h : parse "A:a$\n[ignore]\x7bA # one\n?B\x7d$" =
      .error (.expectedFound "',' or '\x7d'" '?' 22) := by decide +kernel
  exact ⟨h, parse_error_place h⟩

end LexerGen.Rules
