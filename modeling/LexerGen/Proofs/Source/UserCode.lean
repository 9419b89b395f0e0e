import LexerGen.Proofs.Source.Delimiting
import LexerGen.Proofs.Source.RoundTrip

/-! What user code can do to the lexer that is read back. It is copied into the source as it stands
and comes behind the tables, and the last opening counts: user code that opens no table module
changes nothing, and any other puts tables of its own in the place of those that were written. -/

namespace LexerGen.Source

open Text Reader

/-- What stands before the last opening does not matter. -/
theorem read_of_same_opening {source source' : String} {before before' rest : List Char}
    {lexer : Lexer} (hrest : Free rest) (h : source.toList = before ++ (opening ++ rest))
    (h' : source'.toList = before' ++ (opening ++ rest)) (hread : read source = .ok lexer) :
    read source' = .ok lexer := by
  have hfound := lastOpening?_append none 0 before hrest
  have hfound' := lastOpening?_append none 0 before' hrest
  rw [← h] at hfound
  rw [← h'] at hfound'
  simp only [read, hfound] at hread
  split at hread
  · cases hread
  · rename_i parts c hrun
    obtain ⟨s, hs⟩ := tables.moves hrun
    have hagain := selfDelimiting_tables hrun hs
      (0 + byteLength before' + byteLength header.toList) c.rest
    rw [← hs.rest] at hagain
    simp only [read, hfound', hagain]
    exact hread

theorem infix_writeUserCode (e : String × String) : e.2.toList <:+: (writeUserCode e).toList := by
  refine ⟨'(' :: (stringLiteral e.1.toList ++ ", |s: &str, pos: &mut usize| ".toList), [')'], ?_⟩
  simp [writeUserCode, quoteString, toString_string]

theorem infix_linesText {α : Type} (w : α → List Char) {items : List α} {a : α} (h : a ∈ items) :
    w a <:+: linesText w items := by
  obtain ⟨before, after, rfl⟩ := List.append_of_mem h
  refine ⟨" &[\n".toList ++ (before.flatMap fun a => "    ".toList ++ w a ++ ",\n".toList) ++
    "    ".toList, ",\n".toList ++ (after.flatMap fun a => "    ".toList ++ w a ++ ",\n".toList) ++
    "  ]".toList, ?_⟩
  simp [linesText]

theorem infix_closing (lexer : Lexer) {userCode : Dictionary} {e : String × String}
    (h : e ∈ userCode.entries) : e.2.toList <:+: closing lexer userCode := by
  refine ((infix_writeUserCode e).trans
    (infix_linesText (fun e => (writeUserCode e).toList) h)).trans ?_
  refine ⟨"\n\n  ".toList ++ userCodeDeclaration.toList ++ " =".toList,
    [';'] ++ ("\n\x7d\n\n".toList ++ (writeConstructor lexer.table.entry).toList), ?_⟩
  simp [closing, declaredText]

/-- If the user code opens a module, what is read does not depend on the tables that were
written. -/
theorem read_write_of_opening {lexer : Lexer} {userCode : Dictionary}
    (h : opening <:+: closing lexer userCode) {template : String} {found : Lexer}
    (hread : read (write lexer userCode template) = .ok found) (lexer' : Lexer)
    (hentry : lexer.table.entry = lexer'.table.entry) :
    read (write lexer' userCode template) = .ok found := by
  obtain ⟨before, rest, hclosing, hrest⟩ := exists_last_opening h
  have hclosing' : closing lexer' userCode = before ++ (opening ++ rest) := by
    rw [← hclosing, closing, closing, hentry]
  have htext : ∀ l : Lexer, closing l userCode = before ++ (opening ++ rest) →
      (write l userCode template).toList =
        template.toList ++ ['\n'] ++ (opening ++ ((partsOf l).body ++ before)) ++
          (opening ++ rest) := by
    intro l hl
    simp [toList_write, hl]
  exact read_of_same_opening hrest (htext lexer hclosing) (htext lexer' hclosing') hread

/-- User code that opens a module hides some lexer: two whose constructors are the same cannot both
be read from it. -/
theorem exists_read_write_ne {userCode : Dictionary} {e : String × String}
    (he : e ∈ userCode.entries) (hopens : opening <:+: e.2.toList) (template : String) :
    ∃ lexer : Lexer, lexer.table.Produced ∧ read (write lexer userCode template) ≠ .ok lexer := by
  have htable : StateTable.ofParts 0 [[]] [] = .ok ⟨0, #[{}]⟩ := by decide
  have hproduced := StateTable.Produced.ofParts (by decide) (by decide) (by decide) htable
  by_cases hfirst : read (write { table := ⟨0, #[{}]⟩ } userCode template) =
      .ok { table := ⟨0, #[{}]⟩ }
  · refine ⟨{ table := ⟨0, #[{}]⟩, keywords := ⟨[("", "")], by simp⟩ }, hproduced, ?_⟩
    intro hsecond
    have hmoved := read_write_of_opening (hopens.trans (infix_closing _ he)) hfirst
      { table := ⟨0, #[{}]⟩, keywords := ⟨[("", "")], by simp⟩ } rfl
    rw [hsecond] at hmoved
    exact absurd (congrArg (fun l => l.keywords.entries) (Except.ok.inj hmoved)) (by decide)
  · exact ⟨_, hproduced, hfirst⟩

theorem exists_closing_eq (lexer : Lexer) {userCode : Dictionary} {e : String × String}
    (h : userCode.entries = [e]) :
    ∃ before, closing lexer userCode = before ++ (e.2.toList ++
      ("),\n  ];\n\x7d\n\n".toList ++ (writeConstructor lexer.table.entry).toList)) := by
  refine ⟨"\n\n  ".toList ++ userCodeDeclaration.toList ++ " = &[\n    (".toList ++
    stringLiteral e.1.toList ++ ", |s: &str, pos: &mut usize| ".toList, ?_⟩
  simp [closing, declaredText, linesText, h, writeUserCode, quoteString, toString_string]

/-- User code can put any lexer in the place of the one that was written. -/
theorem read_write_of_tables (lexer : Lexer) {other : Lexer} (ht : other.table.Produced)
    {userCode : Dictionary} {tag : String}
    (hcode : userCode.entries = [(tag, header ++ "\n\n" ++ writeTables other)])
    (template : String) : read (write lexer userCode template) = .ok other := by
  obtain ⟨before, hclosing⟩ := exists_closing_eq lexer hcode
  have hend : Harmless "\n),\n  ];\n\x7d\n\n".toList := harmless_of_not_mem (by decide)
  have hrest := hend.append (harmless_writeConstructor lexer.table.entry) [] free_nil
  have htext : (write lexer userCode template).toList =
      template.toList ++ ['\n'] ++ (opening ++ ((partsOf lexer).body ++ before)) ++
        (opening ++ ((partsOf other).body ++ ("\n),\n  ];\n\x7d\n\n".toList ++
          (writeConstructor lexer.table.entry).toList ++ []))) := by
    simp [toList_write, hclosing, toList_writeTables, opening]
  exact read_of_opening ht hrest htext

/-- User code changes nothing just if it opens no table module. -/
theorem read_write_eq_iff_free (userCode : Dictionary) :
    (∀ (lexer : Lexer) (template : String) (other : Dictionary), lexer.table.Produced →
      (∀ e ∈ other.entries, ¬opening <:+: e.2.toList) →
        read (write lexer userCode template) = read (write lexer other template)) ↔
      ∀ e ∈ userCode.entries, ¬opening <:+: e.2.toList := by
  have hread : ∀ {lexer : Lexer} {other : Dictionary} (template : String), lexer.table.Produced →
      (∀ e ∈ other.entries, Free e.2.toList) → read (write lexer other template) = .ok lexer :=
    fun template ht hother =>
      read_of_opening ht (free_closing _ hother) (toList_write _ _ template)
  constructor
  · intro hsame e he hopens
    obtain ⟨lexer, ht, hne⟩ := exists_read_write_ne he hopens ""
    have hempty : ∀ e ∈ (StringMap.empty : Dictionary).entries, Free e.2.toList := by
      intro e he
      cases he
    rw [hsame lexer "" .empty ht hempty] at hne
    exact hne (hread "" ht hempty)
  · intro hfree lexer template other ht hother
    rw [hread template ht hfree, hread template ht hother]

/-- Written for the letter `a`, and read back for the letter `b`. -/
theorem read_write_replaced :
    ∃ (lexer other : Lexer) (userCode : Dictionary),
      StateTable.ofParts 0 [[⟨⟨'a', 'a'⟩, 1⟩], []] [(1, "A")] = .ok lexer.table ∧
      StateTable.ofParts 0 [[⟨⟨'b', 'b'⟩, 1⟩], []] [(1, "A")] = .ok other.table ∧
      userCode.entries = [("A", header ++ "\n\n" ++ writeTables other)] ∧
      lexer ≠ other ∧
      read (write lexer .empty "") = .ok lexer ∧
      read (write lexer userCode "") = .ok other := by
  have ha : StateTable.ofParts 0 [[⟨⟨'a', 'a'⟩, 1⟩], []] [(1, "A")] =
      .ok ⟨0, #[{ edges := #[⟨⟨'a', 'a'⟩, 1⟩] }, { tag := some "A" }]⟩ := by decide
  have hb : StateTable.ofParts 0 [[⟨⟨'b', 'b'⟩, 1⟩], []] [(1, "A")] =
      .ok ⟨0, #[{ edges := #[⟨⟨'b', 'b'⟩, 1⟩] }, { tag := some "A" }]⟩ := by decide
  have hempty : ∀ lexer : Lexer, Free (closing lexer .empty) :=
    fun lexer => free_closing lexer (by simp [StringMap.empty])
  refine ⟨{ table := _ }, { table := _ }, ⟨[("A", _)], by simp⟩, ha, hb, rfl, by decide, ?_, ?_⟩
  · exact read_of_opening (.ofParts (by decide) (by decide) (by decide) ha) (hempty _)
      (toList_write _ _ "")
  · exact read_write_of_tables _ (.ofParts (by decide) (by decide) (by decide) hb) rfl ""

end LexerGen.Source
