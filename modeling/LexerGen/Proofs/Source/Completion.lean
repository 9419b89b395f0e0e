import LexerGen.Proofs.Source.Delimiting
import LexerGen.Proofs.Source.Opening

/-! Where malformed source is said to be malformed. What is wrong inside an item of a list is not
reported where it stands: the list ends before the item, and the place is the one where the closing
bracket is missing. It is a place where something else could have stood, as the text before it can
be completed to tables that are read; and it is never a blank. -/

namespace LexerGen.Text.Reader

variable {ε α β : Type}

theorem ParsesBefore.bind_before {r : Reader ε α} {f : α → Reader ε β} {s t : List Char}
    {x y : Char} {a : α} {b : β} (h : r.ParsesBefore s x a)
    (h' : (f a).ParsesBefore (x :: t) y b) : (r >>= f).ParsesBefore (s ++ x :: t) y b := by
  intro pos rest
  rw [List.append_assoc, List.cons_append, run_bind_ok (h pos (t ++ y :: rest)), ← List.cons_append,
    h', byteLength_append, Nat.add_assoc]

end LexerGen.Text.Reader

namespace LexerGen.Source

open Text Reader

variable {α β : Type}

/-! ### Completions -/

/-- Something can be put behind `known` so that the reader takes both, and a tab behind that. It
starts with a tab too: a tab is a blank, it ends every number, and no opening has one. -/
def Completes (r : TableReader α) (known : List Char) : Prop :=
  ∃ t a, '/' ∉ t ∧ r.ParsesBefore (known ++ '\t' :: t) '\t' a

/-- What the reader has read, it reads again before the same character and before a tab. -/
structure Firm (r : TableReader α) : Prop where
  next : r.NextDelimiting
  tab : ∀ ⦃c c' : Cursor⦄ ⦃a : α⦄ ⦃text : List Char⦄,
    r.run c = .ok (a, c') → c.Reads text c' → r.ParsesBefore text '\t' a

/-- The reader can be given a text, and wherever it fails, what it has read up to there can be
completed and no blank follows. -/
structure Recovers (r : TableReader α) : Prop where
  starts : Completes r []
  fault : ∀ ⦃c : Cursor⦄ ⦃offset : Nat⦄, r.run c = .error offset →
    ∃ known c', c.Reads known c' ∧ c'.pos = offset ∧ c'.StopsAt isSpace ∧ Completes r known

section

variable {r : TableReader α} {k : α → TableReader β} {known : List Char}

theorem Completes.bind (h : Completes r known) (hk : ∀ a, Completes (k a) []) :
    Completes (r >>= k) known := by
  obtain ⟨t, a, ht, hr⟩ := h
  obtain ⟨u, b, hu, hka⟩ := hk a
  refine ⟨t ++ '\t' :: u, b, by simp [ht, hu], ?_⟩
  have hboth := hr.bind_before hka
  rwa [List.append_assoc, List.cons_append] at hboth

theorem Completes.map (h : Completes r known) (g : α → β) :
    Completes (r >>= fun a => pure (g a)) known := by
  obtain ⟨t, a, ht, hr⟩ := h
  refine ⟨t, g a, ht, fun pos rest => ?_⟩
  rw [run_bind_ok (hr pos rest), run_pure]

theorem firm_of_selfDelimiting (h : r.SelfDelimiting) : Firm r :=
  ⟨h.nextDelimiting, fun _ _ _ _ hrun htext => (h hrun htext).before '\t'⟩

/-- What was read before a text that can be completed does not stand in the way. -/
theorem Firm.completes_bind (hr : Firm r) {c c₁ c' : Cursor} {a : α} {text : List Char}
    (hrun : r.run c = .ok (a, c₁)) (htext : c.Reads text c₁) (hknown : c₁.Reads known c')
    (h : Completes (k a) known) : Completes (r >>= k) (text ++ known) := by
  obtain ⟨t, b, ht, hparses⟩ := h
  refine ⟨t, b, ht, ?_⟩
  cases known with
  | nil =>
    rw [List.append_nil]
    exact (hr.tab hrun htext).bind_before hparses
  | cons x known =>
    have hx : c₁.peek? = some x := by rw [Cursor.peek?, hknown.rest]; rfl
    rw [List.append_assoc]
    exact (hr.next hrun htext hx).bind_before hparses

theorem Recovers.bind (h : Recovers r) (hr : Firm r) (hk : ∀ a, Recovers (k a)) :
    Recovers (r >>= k) := by
  refine ⟨h.starts.bind fun a => (hk a).starts, fun c offset hrun => ?_⟩
  rw [run_bind] at hrun
  cases hfirst : r.run c with
  | error e =>
    rw [hfirst] at hrun
    obtain rfl := Except.error.inj hrun
    obtain ⟨known, c', hknown, hpos, hstop, hcompletes⟩ := h.fault hfirst
    exact ⟨known, c', hknown, hpos, hstop, hcompletes.bind fun a => (hk a).starts⟩
  | ok p =>
    obtain ⟨a, c₁⟩ := p
    rw [hfirst] at hrun
    obtain ⟨text, htext⟩ := r.moves hfirst
    obtain ⟨known, c', hknown, hpos, hstop, hcompletes⟩ := (hk a).fault hrun
    exact ⟨text ++ known, c', htext.trans hknown, hpos, hstop,
      hr.completes_bind hfirst htext hknown hcompletes⟩

theorem Recovers.map (h : Recovers r) (g : α → β) : Recovers (r >>= fun a => pure (g a)) := by
  refine ⟨h.starts.map g, fun c offset hrun => ?_⟩
  rw [run_bind] at hrun
  cases hfirst : r.run c with
  | error e =>
    rw [hfirst] at hrun
    obtain rfl := Except.error.inj hrun
    obtain ⟨known, c', hknown, hpos, hstop, hcompletes⟩ := h.fault hfirst
    exact ⟨known, c', hknown, hpos, hstop, hcompletes.map g⟩
  | ok p =>
    rw [hfirst] at hrun
    cases hrun

end

/-! ### Tokens -/

/-- Where the reader fails, it does so before it has read anything. -/
def FailsAtOnce (r : TableReader α) : Prop :=
  ∀ ⦃c : Cursor⦄ ⦃e : Nat⦄, r.run c = .error e → e = c.pos

theorem failsAtOnce_char (x : Char) : FailsAtOnce (char x) := by
  intro c e h
  rw [char, run_bind] at h
  cases hsign : (satisfy (fun y => decide (y = x)) Cursor.pos : TableReader Char).run c with
  | error e' =>
    rw [hsign] at h
    obtain rfl := Except.error.inj h
    exact (run_satisfy_eq_error_iff.1 hsign).2
  | ok p =>
    rw [hsign] at h
    cases h

theorem failsAtOnce_text (s : String) : FailsAtOnce (text s) := by
  intro c e h
  simp only [text, exactly] at h
  split at h
  · exact (Except.error.inj h).symm
  · cases h

theorem failsAtOnce_number : FailsAtOnce number := by
  intro c e h
  simp only [number] at h
  split at h
  · exact (Except.error.inj h).symm
  · split at h
    · exact (Except.error.inj h).symm
    · cases h

theorem Blanks.append {s t : List Char} (hs : Blanks s) (ht : Blanks t) : Blanks (s ++ t) := by
  intro c hc
  rcases List.mem_append.1 hc with hc | hc
  · exact hs c hc
  · exact ht c hc

theorem blanks_tab : Blanks ['\t'] := by decide

section

variable {r : TableReader α}

theorem exists_blanks_of_run_lexeme_error (hr : FailsAtOnce r) {c : Cursor} {offset : Nat}
    (h : (lexeme r).run c = .error offset) :
    ∃ blanks c', Blanks blanks ∧ c.Reads blanks c' ∧ c'.pos = offset ∧ c'.StopsAt isSpace := by
  cases htake : c.takeWhile isSpace with
  | mk blanks c' =>
    obtain ⟨hreads, hblanks, hstop⟩ := Cursor.takeWhile_eq_iff.1 htake
    have hskip : (takeWhile isSpace : TableReader (List Char)).run c = .ok (blanks, c') :=
      congrArg Except.ok htake
    have hrun : r.run c' = .error offset := by
      rw [lexeme, run_bind_ok hskip] at h
      exact h
    exact ⟨blanks, c', hblanks, hreads, (hr hrun).symm, hstop⟩

/-- A token is missing behind the blanks before it, and can be put there. -/
theorem recovers_lexeme (hr : FailsAtOnce r) {s : List Char} {a : α} (hs : Solid s)
    (hslash : '/' ∉ s) (h : r.ParsesBefore s '\t' a) : Recovers (lexeme r) := by
  have hcompletes : ∀ {blanks : List Char}, Blanks blanks → Completes (lexeme r) blanks := by
    intro blanks hb
    have hparses := parsesBefore_lexeme (hb.append blanks_tab) hs h
    rw [List.append_assoc, List.singleton_append] at hparses
    exact ⟨s, a, hslash, hparses⟩
  refine ⟨hcompletes blanks_nil, fun c offset hrun => ?_⟩
  obtain ⟨blanks, c', hblanks, hreads, hpos, hstop⟩ := exists_blanks_of_run_lexeme_error hr hrun
  exact ⟨blanks, c', hreads, hpos, hstop, hcompletes hblanks⟩

end

theorem recovers_lexeme_char {x : Char} (hx : isSpace x = false) (hslash : x ≠ '/') :
    Recovers (lexeme (char x)) := by
  refine recovers_lexeme (failsAtOnce_char x) (solid_cons [] hx) ?_ ((parses_char x).before '\t')
  simpa using Ne.symm hslash

theorem recovers_lexeme_text {s : String} (hs : Solid s.toList) (hslash : '/' ∉ s.toList) :
    Recovers (lexeme (text s)) :=
  recovers_lexeme (failsAtOnce_text s) hs hslash ((parses_text s).before '\t')

theorem recovers_lexeme_number : Recovers (lexeme number) :=
  recovers_lexeme failsAtOnce_number (solid_toDigits 0) (slash_not_mem_toDigits 0)
    (parsesBefore_number (Nat.zero_le _) rfl)

theorem firm_lexeme_char (x : Char) : Firm (lexeme (char x)) :=
  firm_of_selfDelimiting (delimited_lexeme (delimited_char x)).selfDelimiting

theorem firm_lexeme_text {s : String} (hs : s.toList ≠ []) : Firm (lexeme (text s)) :=
  firm_of_selfDelimiting (delimited_lexeme (delimited_text hs)).selfDelimiting

/-- The character behind a number has to be no digit, and a tab is none. -/
theorem firm_lexeme_number : Firm (lexeme number) := by
  refine ⟨nextDelimiting_lexeme nextDelimiting_number, fun c c' n t hrun ht => ?_⟩
  obtain ⟨blanks, c₁, s, u, rfl, ⟨hskip, hs⟩, hnumber, hu⟩ := exists_reads_of_run_bind hrun ht
  obtain ⟨hreads, hblanks, hstop⟩ := run_takeWhile_eq_ok_iff.1 hskip
  obtain rfl := hs.text_unique hreads
  obtain ⟨digits, ⟨hdigits, hall, -⟩, hne, hle, rfl⟩ := run_number_eq_ok_iff.1 hnumber
  obtain rfl := hu.text_unique hdigits
  have hsolid : Solid u := by
    obtain ⟨x, rest, rfl⟩ := List.exists_cons_of_ne_nil hne
    exact solid_cons rest (isSpace_of_isDecimalDigit (hall x List.mem_cons_self))
  refine parsesBefore_lexeme hblanks hsolid fun pos rest => ?_
  refine run_number_eq_ok_iff.2 ⟨u, ⟨⟨rfl, rfl⟩, hall, fun x hx => ?_⟩, hne, hle, rfl⟩
  obtain rfl := Option.some.inj hx
  decide

/-! ### Lists -/

theorem exists_run_separated (item : TableReader α) (c : Cursor) :
    ∃ items c', (separated item).run c = .ok (items, c') := by
  simp only [separated]
  split
  · exact ⟨_, _, rfl⟩
  · exact ⟨_, _, rfl⟩

/-- Whether or not a comma was read, a bracket can follow. -/
theorem exists_comma (c : Cursor) :
    ∃ o c' comma, (Reader.optional (lexeme (char ','))).run c = .ok (o, c') ∧ c.Reads comma c' ∧
      ∀ blanks, Blanks blanks → EndsList (comma ++ (blanks ++ [']'])) := by
  simp only [Reader.optional]
  cases hcomma : (lexeme (char ',')).run c with
  | error e => exact ⟨none, c, [], rfl, .refl c, fun blanks hb => .bracket hb⟩
  | ok p =>
    obtain ⟨u, c'⟩ := p
    obtain ⟨before, hbefore, hreads⟩ := exists_reads_of_run_lexeme_char hcomma
    refine ⟨some u, c', before ++ [','], rfl, hreads, fun blanks hb => ?_⟩
    rw [List.append_assoc]
    exact .comma hbefore hb

section

variable {item : TableReader α} (h : IsItem item)
include h

theorem completes_items {c c' : Cursor} {items : List α} {body close : List Char}
    (hitems : (separated item).run c = .ok (items, c')) (hbody : c.Reads body c')
    (hclose : EndsList (close ++ ['\t', ']'])) :
    Completes (do
      let items ← separated item
      let _ ← Reader.optional (lexeme (char ','))
      lexeme (char ']')
      return items : TableReader (List α)) (body ++ close) := by
  have hparses := parses_items_append h.delimited h.refuses_bracket h.refuses_comma hclose
    hitems hbody
  rw [← List.append_assoc] at hparses
  exact ⟨[']'], items, by decide, hparses.before '\t'⟩

/-- A list can be closed wherever its bracket is missing: behind an item, behind a comma, and where
nothing was read yet. -/
theorem recovers_items :
    Recovers (do
      let items ← separated item
      let _ ← Reader.optional (lexeme (char ','))
      lexeme (char ']')
      return items : TableReader (List α)) := by
  constructor
  · obtain ⟨e, he⟩ := refuses_lexeme rfl h.refuses_bracket 0 []
    have hnone : (separated item).run ⟨0, [']']⟩ = .ok ([], ⟨0, [']']⟩) := by
      simp only [separated, he]
    exact completes_items h hnone (.refl _) (.bracket blanks_tab)
  · intro c offset hrun
    obtain ⟨items, c₁, hitems⟩ := exists_run_separated item c
    obtain ⟨body, hbody⟩ := (separated item).moves hitems
    obtain ⟨o, c₂, comma, hoptional, hcomma, hends⟩ := exists_comma c₁
    rw [run_bind_ok hitems, run_bind_ok hoptional, run_bind] at hrun
    cases hbracket : (lexeme (char ']')).run c₂ with
    | ok p =>
      rw [hbracket] at hrun
      cases hrun
    | error e =>
      rw [hbracket] at hrun
      obtain rfl := Except.error.inj hrun
      obtain ⟨blanks, c₃, hblanks, hreads, hpos, hstop⟩ :=
        exists_blanks_of_run_lexeme_error (failsAtOnce_char ']') hbracket
      refine ⟨body ++ (comma ++ blanks), c₃, hbody.trans (hcomma.trans hreads), hpos, hstop, ?_⟩
      apply completes_items h hitems hbody
      have hend := hends _ (hblanks.append blanks_tab)
      rwa [List.append_assoc blanks, ← List.append_assoc] at hend

theorem recovers_list : Recovers (list item) :=
  (recovers_lexeme_text (by decide) (by decide)).bind (firm_lexeme_text (by decide))
    fun _ => recovers_items h

end

/-! ### The tables -/

theorem recovers_declared {declaration : String} {value : TableReader α}
    (hd : Solid declaration.toList) (hslash : '/' ∉ declaration.toList) (hvalue : Recovers value)
    (hfirm : Firm value) : Recovers (declared declaration value) := by
  have hne : declaration.toList ≠ [] := by
    obtain ⟨x, rest, hx, -⟩ := hd
    simp [hx]
  refine (recovers_lexeme_text hd hslash).bind (firm_lexeme_text hne) fun _ => ?_
  refine (recovers_lexeme_char rfl (by decide)).bind (firm_lexeme_char '=') fun _ => ?_
  refine hvalue.bind hfirm fun a => ?_
  exact (recovers_lexeme_char rfl (by decide)).map fun _ => a

theorem recovers_declaredList {declaration : String} {item : TableReader α}
    (hd : Solid declaration.toList) (hslash : '/' ∉ declaration.toList) (h : IsItem item) :
    Recovers (declared declaration (list item)) :=
  recovers_declared hd hslash (recovers_list h)
    (firm_of_selfDelimiting h.delimited_list.selfDelimiting)

theorem firm_declaredList {declaration : String} {item : TableReader α}
    (hd : declaration.toList ≠ []) (h : IsItem item) : Firm (declared declaration (list item)) :=
  firm_of_selfDelimiting (delimited_declaredList hd h).selfDelimiting

/-- Behind the opening of their module, the tables can be completed wherever they are malformed. -/
theorem exists_run_tables_eq :
    ∃ r : TableReader Parts, Recovers r ∧ ∀ (pos : Nat) (rest : List Char),
      tables.run ⟨pos, "\n\n".toList ++ moduleOpening.toList ++ rest⟩ =
        r.run ⟨pos + byteLength ("\n\n".toList ++ moduleOpening.toList), rest⟩ := by
  have hopening : (lexeme (text moduleOpening)).Parses
      ("\n\n".toList ++ moduleOpening.toList) () :=
    parses_lexeme (by decide) (by decide) (parses_text moduleOpening)
  have hentry : (declared entryDeclaration (lexeme number)).Delimited :=
    delimited_declared (by decide) (nextDelimiting_lexeme nextDelimiting_number)
  have hkeywords :
      Recovers (declared keywordsDeclaration (list (pair quotedString quotedString))) :=
    recovers_declaredList (by decide) (by decide) isItem_keyword
  refine ⟨_, ?_, fun pos rest => run_bind_ok (hopening pos rest)⟩
  refine (recovers_lexeme_text (by decide) (by decide)).bind (firm_lexeme_text (by decide))
    fun _ => ?_
  refine (recovers_declared (by decide) (by decide) recovers_lexeme_number firm_lexeme_number).bind
    (firm_of_selfDelimiting hentry.selfDelimiting) fun entry => ?_
  refine (recovers_declaredList (by decide) (by decide) isItem_accepting).bind
    (firm_declaredList (by decide) isItem_accepting) fun accepting => ?_
  refine (recovers_declaredList (by decide) (by decide) (isItem_list isItem_edge)).bind
    (firm_declaredList (by decide) (isItem_list isItem_edge)) fun transitions => ?_
  refine (recovers_declaredList (by decide) (by decide) isItem_quotedString).bind
    (firm_declaredList (by decide) isItem_quotedString) fun ignored => ?_
  exact hkeywords.map fun keywords =>
    ({ entry, accepting, transitions, ignored, keywords } : Parts)

/-! ### The whole source -/

/-- No opening starts behind one that is followed by none. -/
theorem length_le_of_opening {before rest before' rest' : List Char} (h : Free rest)
    (heq : before ++ (opening ++ rest) = before' ++ (opening ++ rest')) :
    before'.length ≤ before.length := by
  rcases List.append_eq_append_iff.1 heq with ⟨s, rfl, hs⟩ | ⟨s, rfl, -⟩
  · cases s with
    | nil => simp
    | cons x s =>
      have hopening : opening = '/' :: opening.tail := by decide
      rw [hopening, List.cons_append, List.cons_append, ← hopening] at hs
      have htail := harmless_opening_tail rest h
      rw [(List.cons.inj hs).2] at htail
      exact absurd ⟨s, rest', by rw [List.append_assoc]⟩ htail
  · rw [List.length_append]
    omega

theorem exists_tables_of_malformed {source : String} {offset : Nat}
    (h : read source = .error (.malformed offset)) :
    ∃ before rest, source.toList = before ++ (opening ++ rest) ∧ Free rest ∧
      tables.run ⟨0 + byteLength before + byteLength header.toList,
        "\n\n".toList ++ moduleOpening.toList ++ rest⟩ = .error offset := by
  by_cases hopens : opening <:+: source.toList
  · obtain ⟨before, rest, hsource, hrest⟩ := exists_last_opening hopens
    refine ⟨before, rest, hsource, hrest, ?_⟩
    rw [read, hsource, lastOpening?_append none 0 before hrest] at h
    simp only at h
    split at h
    · rename_i e hrun
      obtain rfl := ReadError.malformed.inj (Except.error.inj h)
      exact hrun
    · split at h
      · cases h
      · cases h
  · rw [read, lastOpening?_of_free hopens] at h
    cases h

/-- Where tables are read behind the last opening, the source is not malformed. -/
theorem read_of_tables {source : String} {before rest : List Char} {parts : Parts} {c : Cursor}
    (hsource : source.toList = before ++ (opening ++ rest)) (hrest : Free rest)
    (hrun : tables.run ⟨0 + byteLength before + byteLength header.toList,
      "\n\n".toList ++ moduleOpening.toList ++ rest⟩ = .ok (parts, c)) :
    (∃ lexer, read source = .ok lexer) ∨ ∃ e, read source = .error (.table e) := by
  rw [read, hsource, lastOpening?_append none 0 before hrest]
  simp only [hrun]
  cases parts.toLexer with
  | error e => exact .inr ⟨e, rfl⟩
  | ok lexer => exact .inl ⟨lexer, rfl⟩

theorem free_completion {known t : List Char} (h : Free known) (ht : '/' ∉ t) :
    Free (known ++ '\t' :: (t ++ ['\t'])) := by
  have hend : Free ['\t'] := free_of_not_mem (by decide)
  have hrest := harmless_concat h (show '\t' ∉ opening by decide) _
    (harmless_of_not_mem ht _ hend)
  rwa [List.append_assoc, List.singleton_append] at hrest

/-- Malformed source is malformed behind its last opening, at a character that is not blank or at
the end, and what stands before the place can be completed without opening another module. -/
theorem read_malformed_place {source : String} {offset : Nat}
    (h : read source = .error (.malformed offset)) :
    ∃ before known rest : List Char,
      source.toList = before ++ (opening ++ (known ++ rest)) ∧
      (∀ before' rest', source.toList = before' ++ (opening ++ rest') →
        before'.length ≤ before.length) ∧
      offset = byteLength (before ++ (opening ++ known)) ∧
      (∀ x, rest.head? = some x → x ∉ [' ', '\t', '\r', '\n']) ∧
      ∃ t : String, Free (known ++ t.toList) ∧
        ((∃ lexer, read (String.ofList (before ++ (opening ++ known)) ++ t) = .ok lexer) ∨
          ∃ e, read (String.ofList (before ++ (opening ++ known)) ++ t) = .error (.table e)) := by
  obtain ⟨before, behind, hsource, hbehind, hrun⟩ := exists_tables_of_malformed h
  obtain ⟨r, hr, htables⟩ := exists_run_tables_eq
  rw [htables] at hrun
  obtain ⟨known, c, hknown, hpos, hstop, t, parts, ht, hparses⟩ := hr.fault hrun
  have hrest : behind = known ++ c.rest := hknown.rest
  have hfree : Free (known ++ '\t' :: (t ++ ['\t'])) := by
    refine free_completion (hbehind.mono ⟨[], c.rest, ?_⟩) ht
    rw [hrest, List.nil_append]
  refine ⟨before, known, c.rest, by rw [hsource, hrest], fun before' rest' heq => ?_, ?_, ?_,
    String.ofList ('\t' :: (t ++ ['\t'])), by rwa [String.toList_ofList], ?_⟩
  · exact length_le_of_opening hbehind (hsource.symm.trans heq)
  · rw [← hpos, hknown.pos]
    simp [opening, Nat.add_assoc]
  · intro x hx
    have hblank : isSpace x = false := hstop x hx
    simpa [isSpace, and_assoc] using hblank
  · have hagain := htables (0 + byteLength before + byteLength header.toList)
      (known ++ '\t' :: (t ++ ['\t']))
    have htext : known ++ '\t' :: (t ++ ['\t']) = known ++ '\t' :: t ++ '\t' :: [] := by simp
    rw [htext, hparses] at hagain
    have hcompleted : (String.ofList (before ++ (opening ++ known)) ++
        String.ofList ('\t' :: (t ++ ['\t']))).toList =
          before ++ (opening ++ (known ++ '\t' :: (t ++ ['\t']))) := by simp
    exact read_of_tables hcompleted hfree (htext ▸ hagain)

/-- The second item lacks its comma, and its opening parenthesis is the place. -/
theorem read_malformed_place_item :
    ∃ source : String,
      source = "é\n" ++ header ++ "\n\n" ++ moduleOpening ++ attributes ++ entryDeclaration ++
        " = 0;" ++ acceptingDeclaration ++ " = &[(1, \"A\"), (2 \"B\")];" ∧
      read source = .error (.malformed 170) ∧
      ∃ before known rest : List Char,
        source.toList = before ++ (opening ++ (known ++ rest)) ∧
        (∀ before' rest', source.toList = before' ++ (opening ++ rest') →
          before'.length ≤ before.length) ∧
        170 = byteLength (before ++ (opening ++ known)) ∧
        (∀ x, rest.head? = some x → x ∉ [' ', '\t', '\r', '\n']) ∧
        ∃ t : String, Free (known ++ t.toList) ∧
          ((∃ lexer, read (String.ofList (before ++ (opening ++ known)) ++ t) = .ok lexer) ∨
            ∃ e, read (String.ofList (before ++ (opening ++ known)) ++ t) = .error (.table e)) := by
  have h : read ("é\n" ++ header ++ "\n\n" ++ moduleOpening ++ attributes ++ entryDeclaration ++
      " = 0;" ++ acceptingDeclaration ++ " = &[(1, \"A\"), (2 \"B\")];") =
        .error (.malformed 170) := by decide +kernel
  exact ⟨_, rfl, h, read_malformed_place h⟩

end LexerGen.Source
