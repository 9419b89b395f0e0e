import LexerGen.Proofs.Nfa.Canonical
import LexerGen.Proofs.Source.Opening
import LexerGen.Proofs.StringMap

/-! Generated source gives the lexer back that it was written for: whatever the template is, and for
all user code that does not open a table module itself. -/

namespace LexerGen

open Text

/-- The tables that can be built: from parts whose numbers have 32 bits, and from automata. -/
inductive StateTable.Produced : StateTable → Prop where
  | ofParts {entry : Nat} {es : List (List Edge)} {tags : List (Nat × String)} {t : StateTable}
      (hentry : entry ≤ maxPosition)
      (htargets : ∀ edges ∈ es, ∀ e ∈ edges, e.target ≤ maxPosition)
      (hstates : ∀ p ∈ tags, p.1 ≤ maxPosition)
      (h : StateTable.ofParts entry es tags = .ok t) : Produced t
  | toTable {f : Nfa.Fragment} {t : StateTable} (h : f.toTable = .ok t) : Produced t

theorem StateTable.Produced.wellFormed {t : StateTable} (h : t.Produced) : t.WellFormed := by
  cases h with
  | ofParts _ _ _ h => exact wellFormed_ofParts h
  | toTable h => exact Nfa.Fragment.wellFormed_toTable h

namespace Source

theorem narrow_partsOf {lexer : Lexer} (h : lexer.table.Produced) : (partsOf lexer).Narrow := by
  obtain ⟨t, keywords, ignored⟩ := lexer
  cases h with
  | @ofParts entry es tags _ hentry htargets hstates h =>
    obtain ⟨rfl, -⟩ := StateTable.ofParts_eq_ok h
    obtain rfl := StateTable.transitions_ofParts h
    refine ⟨hentry, fun p hp => ?_, htargets⟩
    obtain ⟨tag, htag⟩ := StateTable.mem_tags_of_tag? h (StateTable.mem_accepting.1 hp)
    exact hstates (p.1, tag) htag
  | toTable h =>
    have hsize : t.size ≤ maxPosition :=
      Nat.le_trans (Nfa.Fragment.size_toTable_le h) (by decide)
    obtain ⟨hentry, hedges⟩ := (StateTable.wellFormed_iff t).1 (Nfa.Fragment.wellFormed_toTable h)
    refine ⟨Nat.le_of_lt (Nat.lt_of_lt_of_le hentry hsize), fun p hp => ?_, fun es hes e he => ?_⟩
    · have hlt := StateTable.lt_size_of_tag? (StateTable.mem_accepting.1 hp)
      exact Nat.le_of_lt (Nat.lt_of_lt_of_le hlt hsize)
    · exact Nat.le_of_lt (Nat.lt_of_lt_of_le ((hedges es hes).2 e he) hsize)

theorem toLexer_partsOf {lexer : Lexer} (h : lexer.table.WellFormed) :
    (partsOf lexer).toLexer = .ok lexer := by
  have htable := StateTable.ofParts_transitions h
  have hignored : NameSet.ofList lexer.ignored.keys = lexer.ignored := by
    rw [NameSet.ofList, StringMap.keys, List.map_map]
    exact (congrArg StringMap.ofList (List.map_id _)).trans (StringMap.ofList_entries _)
  rw [Parts.toLexer]
  simp only [partsOf, htable, hignored, StringMap.ofList_entries]

/-- What stands behind the tables: the user code and the constructor. -/
def closing (lexer : Lexer) (userCode : Dictionary) : List Char :=
  declaredText userCodeDeclaration
    (linesText (fun e => (writeUserCode e).toList) userCode.entries) ++
  ("\n\x7d\n\n".toList ++ (writeConstructor lexer.table.entry).toList)

theorem toList_write (lexer : Lexer) (userCode : Dictionary) (template : String) :
    (write lexer userCode template).toList =
      template.toList ++ ['\n'] ++
        (opening ++ ((partsOf lexer).body ++ closing lexer userCode)) := by
  simp [write, toList_writeTables, opening, closing, toList_listItem, declaredText]

theorem harmless_writeUserCode {e : String × String} (h : Free e.2.toList) :
    Harmless (writeUserCode e).toList := by
  have hopen : Harmless ['('] := harmless_of_not_mem (by decide)
  have hparameters : Harmless ", |s: &str, pos: &mut usize| ".toList :=
    harmless_of_not_mem (by decide)
  have htext : (writeUserCode e).toList = ['('] ++ (stringLiteral e.1.toList ++
      (", |s: &str, pos: &mut usize| ".toList ++ (e.2.toList ++ [')']))) := by
    simp [writeUserCode, quoteString, toString_string]
  rw [htext]
  exact hopen.append ((harmless_stringLiteral _).append
    (hparameters.append (harmless_concat h (by decide))))

theorem harmless_writeConstructor (entry : Nat) : Harmless (writeConstructor entry).toList := by
  have hdigits : Harmless (toString entry).toList := by
    rw [Nat.toString_eq_repr, Nat.toList_repr]
    exact harmless_toDigits entry
  unfold writeConstructor
  rw [String.toList_append, String.toList_append, String.toList_append, String.toList_append]
  refine (((Harmless.append ?_ hdigits).append ?_).append ?_).append ?_ <;>
    exact harmless_of_not_mem (by decide)

theorem free_closing (lexer : Lexer) {userCode : Dictionary}
    (h : ∀ e ∈ userCode.entries, Free e.2.toList) : Free (closing lexer userCode) := by
  have hdeclaration : '/' ∉ userCodeDeclaration.toList := by decide
  have hcode := harmless_linesText fun e he => harmless_writeUserCode (h e he)
  have hend : Harmless "\n\x7d\n\n".toList := harmless_of_not_mem (by decide)
  have hclosing : Harmless (closing lexer userCode) :=
    (harmless_declaredText hdeclaration hcode).append
      (hend.append (harmless_writeConstructor lexer.table.entry))
  have hfree := hclosing [] free_nil
  rwa [List.append_nil] at hfree

/-- The tables are read wherever they stand, if no other module is opened behind them. -/
theorem read_of_opening {lexer : Lexer} (ht : lexer.table.Produced) {source : String}
    {before rest : List Char} (hrest : Free rest)
    (h : source.toList = before ++ (opening ++ ((partsOf lexer).body ++ rest))) :
    read source = .ok lexer := by
  have hopening := lastOpening?_append none 0 before (harmless_body (partsOf lexer) _ hrest)
  have htables := parses_tables (narrow_partsOf ht)
  rw [← h, ← List.append_assoc] at hopening
  simp only [read, hopening, htables _ _, toLexer_partsOf ht.wellFormed]

/-- Reading undoes writing. -/
theorem read_write {lexer : Lexer} (ht : lexer.table.Produced) (userCode : Dictionary)
    (hcode : ∀ e ∈ userCode.entries, ¬opening <:+: e.2.toList) (template : String) :
    read (write lexer userCode template) = .ok lexer := by
  have hfree := harmless_body (partsOf lexer) _ (free_closing lexer hcode)
  have hopening := lastOpening?_append none 0 (template.toList ++ ['\n']) hfree
  rw [← toList_write, ← List.append_assoc] at hopening
  have htables := parses_tables (narrow_partsOf ht)
  simp only [read, hopening, htables _ _, toLexer_partsOf ht.wellFormed]

/-- The template may be generated source itself. -/
theorem read_write_nested :
    ∃ (lexer : Lexer) (userCode : Dictionary),
      StateTable.ofParts 0 [[⟨⟨'\n', '"'⟩, 1⟩], []] [(1, "a\"/\n")] = .ok lexer.table ∧
      lexer.keywords.entries = [("\\", "\t")] ∧
      lexer.ignored.keys = ["", header] ∧
      userCode.entries = [(header, "*pos += s.len()")] ∧
      read (write lexer userCode (write lexer userCode header)) = .ok lexer := by
  have htable : StateTable.ofParts 0 [[⟨⟨'\n', '"'⟩, 1⟩], []] [(1, "a\"/\n")] =
      .ok ⟨0, #[{ edges := #[⟨⟨'\n', '"'⟩, 1⟩] }, { tag := some "a\"/\n" }]⟩ := by decide
  refine ⟨⟨_, ⟨[("\\", "\t")], by simp⟩, ⟨[("", ()), (header, ())], by decide⟩⟩,
    ⟨[(header, "*pos += s.len()")], by simp⟩, htable, rfl, rfl, rfl, ?_⟩
  have hproduced := StateTable.Produced.ofParts (by decide) (by decide) (by decide) htable
  refine read_write hproduced _ (fun e he => ?_) _
  obtain rfl := List.mem_singleton.1 he
  exact free_of_not_mem (by decide)

end Source

end LexerGen
