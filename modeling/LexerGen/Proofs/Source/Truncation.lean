import LexerGen.Proofs.Source.Delimiting
import LexerGen.Proofs.Source.RoundTrip

/-! Generated source that was cut off. Up to the end of the opening nothing is found; from there to
the end of the keywords something is missing; and with the keywords complete, the lexer is read back
whatever is left of the user code. In no case is another lexer read. -/

namespace LexerGen.Source

open Text Reader

/-! ### Cut before the end of the opening -/

/-- No part of an opening that starts behind one of its line ends is the start of an opening. -/
theorem not_prefix_of_opening_eq {before after : List Char}
    (h : opening = before ++ '\n' :: after) : ¬after <+: opening := by
  have hall : ∀ k < opening.length, opening[k]? = some '\n' →
      ¬opening.drop (k + 1) <+: opening := by
    decide
  have hlt : before.length < opening.length := by
    rw [h, List.length_append, List.length_cons]
    omega
  have hget : opening[before.length]? = some '\n' := by simp [h]
  have hdrop : opening.drop (before.length + 1) = after := by
    rw [h, List.drop_append]
    simp
  rw [← hdrop]
  exact hall before.length hlt hget

/-- A template on which an incomplete opening follows opens no module. -/
theorem free_append_newline {template o : List Char} (h : Free template) (ho : o <+: opening)
    (hne : o ≠ opening) : Free (template ++ '\n' :: o) := by
  have hlt : o.length < opening.length :=
    Nat.lt_of_le_of_ne ho.length_le fun heq => hne (ho.eq_of_length heq)
  have hshort : Free o := by
    intro hopens
    have := hopens.length_le
    omega
  have hnewline : Free ('\n' :: o) := by
    refine free_cons (fun hopening => ?_) hshort
    exact absurd (List.cons_prefix_cons.1 hopening).1 (by decide)
  apply free_append_cons h hnewline
  intro before after heq hafter
  exact not_prefix_of_opening_eq heq (hafter.trans ho)

theorem free_of_append_eq {template cut rest : List Char} (h : Free template)
    (hcut : template ++ ['\n'] ++ opening = cut ++ rest) (hrest : rest ≠ []) : Free cut := by
  rw [List.append_assoc] at hcut
  rcases List.append_eq_append_iff.1 hcut with ⟨s, rfl, hs⟩ | ⟨s, rfl, -⟩
  · cases s with
    | nil => rwa [List.append_nil]
    | cons x o =>
      obtain ⟨rfl, ho⟩ : '\n' = x ∧ opening = o ++ rest := List.cons.inj hs
      refine free_append_newline h ⟨rest, ho.symm⟩ fun heq => hrest ?_
      rw [heq] at ho
      exact List.append_right_eq_self.1 ho.symm
  · exact h.mono (List.prefix_append cut s).isInfix

theorem read_of_free {source : String} (h : Free source.toList) :
    read source = .error .missingHeader := by
  rw [read, lastOpening?_of_free h]

/-! ### Cut inside the tables -/

/-- The tables cannot be read from a part of their text: they would be read from the whole text as
well, with something left behind them. -/
theorem tables_run_cut {p : Parts} (hp : p.Narrow) {known rest : List Char}
    (h : p.body = known ++ rest) (hrest : rest ≠ []) (pos : Nat) :
    ∃ offset, tables.run ⟨pos, "\n\n".toList ++ moduleOpening.toList ++ known⟩ = .error offset := by
  cases hrun : tables.run ⟨pos, "\n\n".toList ++ moduleOpening.toList ++ known⟩ with
  | error offset => exact ⟨offset, rfl⟩
  | ok answer =>
    obtain ⟨parts, c⟩ := answer
    obtain ⟨s, hs⟩ := tables.moves hrun
    have hagain := selfDelimiting_tables hrun hs pos (c.rest ++ rest)
    have hwhole := parses_tables hp pos []
    have hsame : "\n\n".toList ++ moduleOpening.toList ++ p.body ++ [] =
        s ++ (c.rest ++ rest) := by
      rw [List.append_nil, h, ← List.append_assoc, ← List.append_assoc s, ← hs.rest]
    rw [hsame, hagain] at hwhole
    have hnil := congrArg Cursor.rest (Prod.mk.inj (Except.ok.inj hwhole)).2
    exact absurd (List.append_eq_nil_iff.1 hnil).2 hrest

theorem read_of_cut_body {lexer : Lexer} (ht : lexer.table.Produced) {source : String}
    {before known rest : List Char} (h : source.toList = before ++ (opening ++ known))
    (hknown : (partsOf lexer).body = known ++ rest) (hrest : rest ≠ []) :
    ∃ offset, read source = .error (.malformed offset) := by
  have hbody : Free (partsOf lexer).body := by
    have hfree := harmless_body (partsOf lexer) [] free_nil
    rwa [List.append_nil] at hfree
  have hfree : Free known := hbody.mono ⟨[], rest, by rw [hknown, List.nil_append]⟩
  have hopening := lastOpening?_append none 0 before hfree
  obtain ⟨offset, herror⟩ := tables_run_cut (narrow_partsOf ht) hknown hrest
    (0 + byteLength before + byteLength header.toList)
  refine ⟨offset, ?_⟩
  rw [← h] at hopening
  simp only [read, hopening, herror]

/-! ### Every cut -/

/-- The source up to the `;` that ends the keywords. In the tables only a line end follows it. -/
def throughKeywords (lexer : Lexer) (template : String) : List Char :=
  (template ++ "\n" ++ header ++ "\n\n" ++ writeTables lexer).toList.dropLast

/-- The place behind the `;` that ends the keywords. -/
def keywordsEnd (lexer : Lexer) (template : String) : Nat :=
  byteLength (throughKeywords lexer template)

theorem throughKeywords_eq (lexer : Lexer) (template : String) :
    throughKeywords lexer template =
      template.toList ++ ['\n'] ++ (opening ++ (partsOf lexer).body) := by
  have htext : (template ++ "\n" ++ header ++ "\n\n" ++ writeTables lexer).toList =
      template.toList ++ ['\n'] ++ (opening ++ (partsOf lexer).body) ++ ['\n'] := by
    simp [toList_writeTables, opening]
  rw [throughKeywords, htext, List.dropLast_concat]

theorem exists_throughKeywords_eq (lexer : Lexer) (template : String) :
    ∃ known, throughKeywords lexer template = known ++ [';'] := by
  rw [throughKeywords_eq]
  simp only [Parts.body, declaredText, ← List.append_assoc]
  exact ⟨_, rfl⟩

theorem toList_write_eq_append (lexer : Lexer) (userCode : Dictionary) (template : String) :
    (write lexer userCode template).toList =
      throughKeywords lexer template ++ closing lexer userCode := by
  rw [toList_write, throughKeywords_eq, List.append_assoc (template.toList ++ ['\n']),
    List.append_assoc opening]

/-- Of two starts of a text, the one with fewer bytes is a start of the other one. -/
theorem exists_append_of_byteLength_lt {s t u v : List Char} (h : s ++ t = u ++ v)
    (hlt : byteLength s < byteLength u) : ∃ w, w ≠ [] ∧ u = s ++ w := by
  rcases List.append_eq_append_iff.1 h with ⟨w, rfl, -⟩ | ⟨w, rfl, -⟩
  · refine ⟨w, fun hw => ?_, rfl⟩
    rw [hw, List.append_nil] at hlt
    omega
  · rw [byteLength_append] at hlt
    omega

theorem exists_append_of_byteLength_le {s t u v : List Char} (h : s ++ t = u ++ v)
    (hle : byteLength u ≤ byteLength s) : ∃ w, s = u ++ w ∧ v = w ++ t := by
  rcases List.append_eq_append_iff.1 h with ⟨w, rfl, rfl⟩ | ⟨w, rfl, rfl⟩
  · have hw := length_le_byteLength w
    rw [byteLength_append] at hle
    obtain rfl : w = [] := List.length_eq_zero_iff.1 (by omega)
    exact ⟨[], by simp, by simp⟩
  · exact ⟨w, rfl, rfl⟩

/-- Source that is cut off is not read as another lexer. -/
theorem read_cut {lexer : Lexer} (ht : lexer.table.Produced) (userCode : Dictionary)
    (hcode : ∀ e ∈ userCode.entries, ¬opening <:+: e.2.toList) (template : String)
    (htemplate : ¬opening <:+: template.toList) {cut rest : String}
    (h : write lexer userCode template = cut ++ rest) :
    (byteLength cut.toList < keywordsEnd lexer template →
      read cut = .error .missingHeader ∨ ∃ offset, read cut = .error (.malformed offset)) ∧
    (keywordsEnd lexer template ≤ byteLength cut.toList → read cut = .ok lexer) := by
  have htext := congrArg String.toList h
  rw [toList_write_eq_append, String.toList_append] at htext
  rw [keywordsEnd]
  constructor
  · intro hlt
    obtain ⟨missing, hmissing, hcut⟩ := exists_append_of_byteLength_lt htext.symm hlt
    rw [throughKeywords_eq, ← List.append_assoc] at hcut
    rcases Nat.lt_or_ge (byteLength cut.toList)
      (byteLength (template.toList ++ ['\n'] ++ opening)) with hopen | hopen
    · obtain ⟨w, hw, heq⟩ := exists_append_of_byteLength_lt hcut.symm hopen
      exact .inl (read_of_free (free_of_append_eq htemplate heq hw))
    · obtain ⟨known, hknown, hbody⟩ := exists_append_of_byteLength_le hcut.symm hopen
      rw [List.append_assoc] at hknown
      exact .inr (read_of_cut_body ht hknown hbody hmissing)
  · intro hle
    obtain ⟨w, hw, hclosing⟩ := exists_append_of_byteLength_le htext.symm hle
    have hfree : Free w := (free_closing lexer hcode).mono ⟨[], rest.toList, by simp [hclosing]⟩
    rw [throughKeywords_eq, List.append_assoc, List.append_assoc opening] at hw
    exact read_of_opening ht hfree hw

/-- Whether the `;` behind the keywords is still there decides. -/
theorem read_cut_semicolon :
    ∃ (lexer : Lexer) (userCode : Dictionary) (known : List Char),
      StateTable.ofParts 0 [[⟨⟨'a', 'z'⟩, 1⟩], []] [(1, "word")] = .ok lexer.table ∧
      lexer.keywords.entries = [("if", "key")] ∧
      userCode.entries = [("word", header)] ∧
      known ++ [';'] <+: (write lexer userCode (header ++ "\n")).toList ∧
      (read (String.ofList known) = .error .missingHeader ∨
        ∃ offset, read (String.ofList known) = .error (.malformed offset)) ∧
      read (String.ofList (known ++ [';'])) = .ok lexer := by
  obtain ⟨lexer, htable, hkeywords⟩ : ∃ lexer : Lexer,
      StateTable.ofParts 0 [[⟨⟨'a', 'z'⟩, 1⟩], []] [(1, "word")] = .ok lexer.table ∧
        lexer.keywords.entries = [("if", "key")] :=
    ⟨⟨⟨0, #[{ edges := #[⟨⟨'a', 'z'⟩, 1⟩] }, { tag := some "word" }]⟩,
      ⟨[("if", "key")], by simp⟩, ⟨[], by simp⟩⟩, by decide, rfl⟩
  obtain ⟨userCode, huser⟩ : ∃ userCode : Dictionary, userCode.entries = [("word", header)] :=
    ⟨⟨[("word", header)], by simp⟩, rfl⟩
  have hproduced := StateTable.Produced.ofParts (by decide) (by decide) (by decide) htable
  have hcode : ∀ e ∈ userCode.entries, ¬opening <:+: e.2.toList := by
    rw [huser]
    intro e he
    obtain rfl := List.mem_singleton.1 he
    exact free_of_not_mem (by decide)
  have htemplate : ¬opening <:+: (header ++ "\n").toList := by decide
  obtain ⟨known, hknown⟩ := exists_throughKeywords_eq lexer (header ++ "\n")
  have hwrite := toList_write_eq_append lexer userCode (header ++ "\n")
  have hcut : ∀ cut rest, cut ++ rest = throughKeywords lexer (header ++ "\n") ++
      closing lexer userCode → write lexer userCode (header ++ "\n") =
        String.ofList cut ++ String.ofList rest := by
    intro cut rest h
    rw [← String.toList_inj, hwrite, ← h, ← String.ofList_append, String.toList_ofList]
  refine ⟨lexer, userCode, known, htable, hkeywords, huser, ?_, ?_, ?_⟩
  · rw [← hknown, hwrite]
    exact List.prefix_append _ _
  · have hsource := hcut known (';' :: closing lexer userCode) (by simp [hknown])
    apply (read_cut hproduced userCode hcode _ htemplate hsource).1
    rw [keywordsEnd, hknown, String.toList_ofList, byteLength_append]
    exact Nat.lt_add_of_pos_right (by decide)
  · rw [← hknown]
    have hsource := hcut _ (closing lexer userCode) rfl
    apply (read_cut hproduced userCode hcode _ htemplate hsource).2
    rw [keywordsEnd, String.toList_ofList]

end LexerGen.Source
