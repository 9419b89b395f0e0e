import LexerGen.Command.Directory
import LexerGen.Proofs.Lexer.TokenTags
import LexerGen.Proofs.Source.Literals

/-! The lines that a scan prints. A tab ends the tag of a line and a newline ends its text, so where
no tag holds a tab the tokens can be told from the output: lexers of rule files print the same for
two inputs just if their tokens have the same tags and texts. -/

namespace LexerGen

open Text Lexer

/-- What the output shows of a token. -/
def Token.content (t : Token) : String × String := (t.tag, t.text)

namespace Command

/-! ### Reading lines back -/

theorem toList_tokenLine (t : Token) : (tokenLine t).toList =
    t.tag.toList ++ '\t' :: (escapeAll t.text.toList ++ ['\n']) := by
  simp [tokenLine]

/-- A text is cut at its first `x` in one way. -/
theorem eq_and_eq_of_append_cons {α : Type} {x : α} {s s' t t' : List α} (hs : x ∉ s)
    (hs' : x ∉ s') (h : s ++ x :: t = s' ++ x :: t') : s = s' ∧ t = t' := by
  rcases List.append_eq_append_iff.1 h with ⟨u, rfl, hu⟩ | ⟨u, rfl, hu⟩
  · cases u with
    | nil => exact ⟨(List.append_nil s).symm, (List.cons.inj hu).2⟩
    | cons y u =>
      obtain ⟨rfl, -⟩ := List.cons.inj hu
      simp at hs'
  · cases u with
    | nil => exact ⟨List.append_nil s', (List.cons.inj hu).2.symm⟩
    | cons y u =>
      obtain ⟨rfl, -⟩ := List.cons.inj hu
      simp at hs

/-- The first line of an output gives the tag and the text of its token. -/
theorem content_eq_of_append_eq {t t' : Token} (ht : '\t' ∉ t.tag.toList)
    (ht' : '\t' ∉ t'.tag.toList) {rest rest' : List Char}
    (h : (tokenLine t).toList ++ rest = (tokenLine t').toList ++ rest') :
    t.content = t'.content ∧ rest = rest' := by
  simp only [toList_tokenLine, List.append_assoc, List.cons_append, List.nil_append] at h
  obtain ⟨htag, hline⟩ := eq_and_eq_of_append_cons ht ht' h
  obtain ⟨hescaped, hrest⟩ := eq_and_eq_of_append_cons (Source.newline_not_mem_escapeAll _)
    (Source.newline_not_mem_escapeAll _) hline
  have htext := Source.eq_of_escapeAll_eq hescaped
  exact ⟨Prod.ext (String.toList_inj.1 htag) (String.toList_inj.1 htext), hrest⟩

/-- No tag holds a tab. -/
def TabFree (ts : List Token) : Prop := ∀ t ∈ ts, '\t' ∉ t.tag.toList

theorem contents_eq_of_lines_eq {ts ts' : List Token} (h : TabFree ts) (h' : TabFree ts')
    (heq : ts.flatMap (fun t => (tokenLine t).toList) =
      ts'.flatMap fun t => (tokenLine t).toList) :
    ts.map Token.content = ts'.map Token.content := by
  -- No line is empty, so equal outputs have equally many lines.
  have hne : ∀ t : Token, (tokenLine t).toList ≠ [] := fun t => by simp [toList_tokenLine]
  induction ts generalizing ts' with
  | nil =>
    cases ts' with
    | nil => rfl
    | cons t' ts' => exact absurd (List.append_eq_nil_iff.1 heq.symm).1 (hne t')
  | cons t ts ih =>
    cases ts' with
    | nil => exact absurd (List.append_eq_nil_iff.1 heq).1 (hne t)
    | cons t' ts' =>
      obtain ⟨ht, hts⟩ := List.forall_mem_cons.1 h
      obtain ⟨ht', hts'⟩ := List.forall_mem_cons.1 h'
      obtain ⟨hcontent, hrest⟩ := content_eq_of_append_eq ht ht' heq
      rw [List.map_cons, List.map_cons, hcontent, ih hts hts' hrest]

theorem join_map_tokenLine_eq_iff {ts ts' : List Token} (h : TabFree ts) (h' : TabFree ts') :
    String.join (ts.map tokenLine) = String.join (ts'.map tokenLine) ↔
      ts.map Token.content = ts'.map Token.content := by
  constructor
  · intro heq
    have hlines := congrArg String.toList heq
    rw [String.toList_join, String.toList_join, List.flatMap_map, List.flatMap_map] at hlines
    exact contents_eq_of_lines_eq h h' hlines
  · intro heq
    have hline : tokenLine = (fun c => tokenLine ⟨c.1, c.2, ⟨0, 0⟩⟩) ∘ Token.content := rfl
    rw [hline, ← List.map_map, ← List.map_map, heq]

/-! ### Lines of a scan -/

theorem tokenLines_eq (lexer : Lexer) (c : Cursor) : tokenLines lexer c =
    match lexer.nextToken? c with
    | none => ([], none)
    | some (.error e) => ([], some e)
    | some (.ok (t, c')) => (tokenLine t :: (tokenLines lexer c').1, (tokenLines lexer c').2) := by
  rw [tokenLines]
  split <;> rename_i h <;> simp only [h]

section

variable {lexer : Lexer} {c : Cursor}

theorem tokenLines_of_tokens {ts : List Token} (h : lexer.tokensFrom c = .ok ts) :
    tokenLines lexer c = (ts.map tokenLine, none) := by
  fun_induction tokensFrom lexer c generalizing ts with
  | case1 c hnext =>
    obtain rfl := Except.ok.inj h
    rw [tokenLines_eq, hnext]
    rfl
  | case2 => cases h
  | case3 => cases h
  | case4 c t c' hnext _ ts' hts' ih =>
    obtain rfl := Except.ok.inj h
    rw [tokenLines_eq, hnext]
    simp only [ih hts', List.map_cons]

theorem tokenLines_of_error {e : ScanError} (h : lexer.tokensFrom c = .error e) :
    (tokenLines lexer c).2 = some e := by
  fun_induction tokensFrom lexer c with
  | case1 => cases h
  | case2 c e' hnext =>
    obtain rfl := Except.error.inj h
    rw [tokenLines_eq, hnext]
  | case3 c t c' hnext _ e' he' ih =>
    obtain rfl := Except.error.inj h
    rw [tokenLines_eq, hnext]
    exact ih he'
  | case4 => cases h

/-- A scan without an error has a line for each token. -/
theorem tokenLines_eq_iff {lines : List String} : tokenLines lexer c = (lines, none) ↔
    ∃ ts, lexer.tokensFrom c = .ok ts ∧ lines = ts.map tokenLine := by
  constructor
  · intro h
    cases hts : lexer.tokensFrom c with
    | error e =>
      have herror := tokenLines_of_error hts
      rw [h] at herror
      cases herror
    | ok ts =>
      rw [tokenLines_of_tokens hts] at h
      exact ⟨ts, rfl, (Prod.mk.inj h).1.symm⟩
  · rintro ⟨ts, hts, rfl⟩
    exact tokenLines_of_tokens hts

end

/-- The tokens of a lexer that is made from a rule file have tags without tabs. -/
theorem tabFree_of_ofSource {source : String} {g : Compiled} (hg : Compiled.ofSource source = .ok g)
    {c : Cursor} {ts : List Token} (h : g.lexer.tokensFrom c = .ok ts) : TabFree ts :=
  fun _ ht => (Reference.name_of_mem_tokens hg h ht).not_mem (by decide)

/-! ### Scans of files -/

theorem run_scan {lexer : Lexer} {w : World} {path input : String}
    (h : w.directory.readText path = .ok input) :
    (scan World.host lexer path).run w =
      match tokenLines lexer (.start input.toList) with
      | (lines, none) => (.success, w.print (String.join lines))
      | (lines, some e) =>
        (.failure, (w.print (String.join lines)).report e.diagnostic.message) := by
  have hread : (World.host.readText path).run w = (.ok input, w) := by
    rw [← h]
    rfl
  rw [scan, StateT.run_bind, hread]
  show StateT.run _ w = _
  dsimp only
  cases tokenLines lexer (.start input.toList) with
  | mk lines error => cases error <;> rfl

/-- A directory in which the file `in` has the given text. -/
def Directory.ofInput (text : String) : Directory := StringMap.ofList [("in", text.toUTF8)]

theorem readText_ofInput (text : String) : (Directory.ofInput text).readText "in" = .ok text := by
  have hparts : "in".splitOn "/" = ["in"] := by
    -- Splitting does not reduce, so its loop is unrolled: a round for each character and the end.
    rw [String.splitOn, if_neg (by decide), String.splitOnAux, if_neg (by decide),
      if_neg (by decide), String.splitOnAux, if_neg (by decide), if_neg (by decide),
      String.splitOnAux, if_pos (by decide)]
    decide
  have hpath : Directory.checkPath "in" = .ok ⟨false, ["in"], false⟩ := by
    rw [Directory.checkPath, Path.ofString, hparts]
    decide
  have hbytes : (Directory.ofInput text).readBytes "in" = .ok text.toUTF8 := by
    rw [Directory.readBytes, hpath]
    rfl
  have htext : String.fromUTF8? text.toUTF8 = some text := by
    simp [String.fromUTF8?, String.fromUTF8, text.isValidUTF8]
  simp only [Directory.readText, hbytes, htext, bind, Except.bind]

/-- The scan of a file with the text `input` succeeds and prints `printed`. -/
def Prints (lexer : Lexer) (input printed : String) : Prop :=
  ∃ (w v : World) (path : String), w.directory.readText path = .ok input ∧
    (scan World.host lexer path).run w = (.success, v) ∧ v.output = w.output ++ printed

/-- A scan succeeds where the input can be cut into tokens, and prints their lines. -/
theorem prints_iff {lexer : Lexer} {input printed : String} : Prints lexer input printed ↔
    ∃ ts, lexer.tokenize input = .ok ts ∧ printed = String.join (ts.map tokenLine) := by
  constructor
  · rintro ⟨w, v, path, hread, hscan, hout⟩
    rw [run_scan hread] at hscan
    split at hscan
    · rename_i lines hlines
      obtain ⟨-, rfl⟩ := Prod.mk.inj hscan
      obtain ⟨ts, hts, rfl⟩ := tokenLines_eq_iff.1 hlines
      exact ⟨ts, hts, ((String.append_right_inj w.output).1 hout).symm⟩
    · cases (Prod.mk.inj hscan).1
  · rintro ⟨ts, hts, rfl⟩
    have hread := readText_ofInput input
    refine ⟨{ directory := .ofInput input }, World.print _ _, "in", hread, ?_, rfl⟩
    rw [run_scan hread, tokenLines_of_tokens hts]

/-- Two scans with the lexer of a rule file print the same just if their tokens have the same tags
and texts. -/
theorem prints_eq_iff_content_eq {source : String} {g : Compiled}
    (hg : Compiled.ofSource source = .ok g) {input input' printed printed' : String}
    (h : Prints g.lexer input printed) (h' : Prints g.lexer input' printed') :
    ∃ ts ts', g.lexer.tokenize input = .ok ts ∧ g.lexer.tokenize input' = .ok ts' ∧
      (printed = printed' ↔ ts.map Token.content = ts'.map Token.content) := by
  obtain ⟨ts, hts, rfl⟩ := prints_iff.1 h
  obtain ⟨ts', hts', rfl⟩ := prints_iff.1 h'
  exact ⟨ts, ts', hts, hts',
    join_map_tokenLine_eq_iff (tabFree_of_ofSource hg hts) (tabFree_of_ofSource hg hts')⟩

/-- The semicolon is an ignored keyword, so it does not matter on which side of the tab it stands. -/
theorem prints_eq_iff_content_eq_ignored : ∃ g,
    Compiled.ofSource "A:[;\\t]$[keywords]\x7bB:;\x7d$[ignore]\x7bB\x7d$" = .ok g ∧
    Prints g.lexer "\t;" "A\t\\t\n" ∧ Prints g.lexer ";\t" "A\t\\t\n" ∧
    ∃ ts ts', g.lexer.tokenize "\t;" = .ok ts ∧ g.lexer.tokenize ";\t" = .ok ts' ∧
      ts.map Token.content = ts'.map Token.content := by
  have hparse : Rules.parse "A:[;\\t]$[keywords]\x7bB:;\x7d$[ignore]\x7bB\x7d$" = .ok
      [⟨.pattern "A" "[;\\t]" ⟨2, 7⟩, ⟨0, 8⟩⟩, ⟨.keywords [(";", "B")], ⟨8, 24⟩⟩,
        ⟨.ignore ["B"], ⟨24, 36⟩⟩] := by decide +kernel
  obtain ⟨f, g, hf, hg⟩ := exists_ofSource (n := 2) hparse (by decide +kernel) (by decide)
  obtain ⟨ds, hds, hl⟩ := Reference.implements_of_ofSource hg
  obtain rfl := Except.ok.inj (hparse.symm.trans hds)
  have hkept : Reference.Tagged _ ['\t'] "A" :=
    (Reference.tag?_eq_some_iff hf).1 (by decide +kernel)
  have hdropped : Reference.Tagged _ [';'] "B" :=
    (Reference.tag?_eq_some_iff hf).1 (by decide +kernel)
  have htab : Reference.Piece _ ⟨0, ['\t', ';']⟩ ['\t'] ⟨1, [';']⟩ :=
    Reference.piece_of_longest hf (by decide +kernel) ⟨rfl, rfl⟩
  have htab' : Reference.Piece _ ⟨1, ['\t']⟩ ['\t'] ⟨2, []⟩ :=
    Reference.piece_of_longest hf (by decide +kernel) ⟨rfl, rfl⟩
  have hsemicolon : Reference.Piece _ ⟨1, [';']⟩ [';'] ⟨2, []⟩ :=
    Reference.piece_of_longest hf (by decide +kernel) ⟨rfl, rfl⟩
  have hsemicolon' : Reference.Piece _ ⟨0, [';', '\t']⟩ [';'] ⟨1, ['\t']⟩ :=
    Reference.piece_of_longest hf (by decide +kernel) ⟨rfl, rfl⟩
  have hbefore : g.lexer.tokenize "\t;" = .ok [⟨"A", "\t", ⟨0, 1⟩⟩] :=
    (tokenize_eq_ok_iff_scans (by decide)).2 (Reference.scans_of_lexes hl
      (.keep htab hkept (by decide) (.drop hsemicolon hdropped (by decide) (.done rfl))))
  have hbehind : g.lexer.tokenize ";\t" = .ok [⟨"A", "\t", ⟨1, 2⟩⟩] :=
    (tokenize_eq_ok_iff_scans (by decide)).2 (Reference.scans_of_lexes hl
      (.drop hsemicolon' hdropped (by decide) (.keep htab' hkept (by decide) (.done rfl))))
  have hprints := prints_iff.2 ⟨_, hbefore, rfl⟩
  have hprints' := prints_iff.2 ⟨_, hbehind, rfl⟩
  obtain ⟨ts, ts', hts, hts', hiff⟩ := prints_eq_iff_content_eq hg hprints hprints'
  exact ⟨g, hg, hprints, hprints', ts, ts', hts, hts', hiff.1 rfl⟩

end Command

end LexerGen
