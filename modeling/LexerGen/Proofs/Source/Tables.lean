import LexerGen.Proofs.Source.Lists
import LexerGen.Proofs.TableParts

/-! The tables of a lexer are read as they were written, declaration by declaration. -/

namespace LexerGen.Source

open Text Reader

variable {α β : Type}

theorem blanks_space : Blanks [' '] := by decide

theorem parses_pair {first : TableReader α} {second : TableReader β} {s t : List Char} {a : α}
    {b : β} (hs : Solid s) (hfirst : first.ParsesBefore s ',' a) (ht : Solid t)
    (hsecond : second.ParsesBefore t ')' b) :
    (pair first second).Parses ('(' :: (s ++ ',' :: ' ' :: (t ++ [')']))) (a, b) := by
  apply (parses_char '(').bind
  apply (parsesBefore_lexeme blanks_nil hs hfirst).bind
  apply (parses_lexeme_char (x := ',') blanks_nil rfl).bind
  apply (parsesBefore_lexeme blanks_space ht hsecond).bind
  exact (parses_lexeme_char (x := ')') blanks_nil rfl).bind_pure fun _ => (a, b)

theorem refuses_pair (first : TableReader α) (second : TableReader β) {x : Char} (hx : x ≠ '(') :
    (pair first second).Refuses x := (refuses_char hx).bind _

theorem refuses_quotedString {x : Char} (hx : x ≠ '"') : quotedString.Refuses x :=
  (refuses_char hx).bind _

theorem refuses_edge {x : Char} (hx : x ≠ '(') : edge.Refuses x := (refuses_char hx).bind _

theorem refuses_list (item : TableReader α) {x : Char} (hx : isSpace x = false) (h : x ≠ '&') :
    (list item).Refuses x := (refuses_lexeme hx (refuses_text rfl h)).bind _

/-! ### The items that are written -/

theorem toString_string (s : String) : toString s = s := rfl

theorem toList_writeEdge (e : Edge) :
    (writeEdge e).toList = '(' :: (charLiteral e.range.lo ++ ',' :: ' ' ::
      (charLiteral e.range.hi ++ ',' :: ' ' :: (Nat.toDigits 10 e.target ++ [')']))) := by
  simp [writeEdge, quoteChar, toString_string]

theorem toList_writeAccepting (e : Nat × String) :
    (writeAccepting e).toList =
      '(' :: (Nat.toDigits 10 e.1 ++ ',' :: ' ' :: (stringLiteral e.2.toList ++ [')'])) := by
  simp [writeAccepting, quoteString, toString_string]

theorem toList_writeKeyword (e : String × String) :
    (writeKeyword e).toList =
      '(' :: (stringLiteral e.1.toList ++ ',' :: ' ' :: (stringLiteral e.2.toList ++ [')'])) := by
  simp [writeKeyword, quoteString, toString_string]

theorem toList_writeEdges (row : Row) :
    (writeEdges row).toList = inlineText (fun e => (writeEdge e).toList) row.edges.toList := by
  simp [writeEdges, inlineText, Function.comp_def]

theorem toList_listItem (declaration : String) (w : α → String) (items : List α) :
    (listItem declaration (items.map w)).toList =
      "  ".toList ++ declaration.toList ++
        (" =".toList ++ (linesText (fun a => (w a).toList) items ++ [';'])) ++ ['\n'] := by
  simp [listItem, linesText, line, List.flatMap_map]

theorem isSpace_of_isDecimalDigit {c : Char} (h : isDecimalDigit c = true) : isSpace c = false := by
  cases hspace : isSpace c with
  | false => rfl
  | true =>
    simp only [isSpace, Bool.or_eq_true, decide_eq_true_eq] at hspace
    obtain ((rfl | rfl) | rfl) | rfl := hspace <;> exact absurd h (by decide)

theorem solid_toDigits (n : Nat) : Solid (Nat.toDigits 10 n) := by
  obtain ⟨x, rest, hdigits⟩ := List.exists_cons_of_ne_nil (Nat.toDigits_ne_nil (n := n) (b := 10))
  have hx : x ∈ Nat.toDigits 10 n := hdigits ▸ List.mem_cons_self
  exact ⟨x, rest, hdigits, isSpace_of_isDecimalDigit (isDecimalDigit_of_mem hx)⟩

theorem solid_charLiteral (c : Char) : Solid (charLiteral c) := solid_cons _ rfl

theorem solid_stringLiteral (cs : List Char) : Solid (stringLiteral cs) := solid_cons _ rfl

theorem solid_writeEdge (e : Edge) : Solid (writeEdge e).toList := by
  rw [toList_writeEdge]
  exact solid_cons _ rfl

theorem parses_edge {e : Edge} (h : e.target ≤ maxPosition) :
    edge.Parses (writeEdge e).toList e := by
  rw [toList_writeEdge]
  apply (parses_char '(').bind
  apply (parses_lexeme blanks_nil (solid_charLiteral _) (parses_quotedChar e.range.lo)).bind
  apply (parses_lexeme_char (x := ',') blanks_nil rfl).bind
  apply (parses_lexeme blanks_space (solid_charLiteral _) (parses_quotedChar e.range.hi)).bind
  apply (parses_lexeme_char (x := ',') blanks_nil rfl).bind
  apply (parsesBefore_lexeme blanks_space (solid_toDigits _) (parsesBefore_number h rfl)).bind
  exact (parses_lexeme_char (x := ')') blanks_nil rfl).bind_pure fun _ => e

theorem solid_writeAccepting (e : Nat × String) : Solid (writeAccepting e).toList := by
  rw [toList_writeAccepting]
  exact solid_cons _ rfl

theorem parses_accepting {e : Nat × String} (h : e.1 ≤ maxPosition) :
    (pair number quotedString).Parses (writeAccepting e).toList e := by
  rw [toList_writeAccepting]
  exact parses_pair (solid_toDigits _) (parsesBefore_number h rfl) (solid_stringLiteral _)
    ((parses_quotedString e.2).before _)

theorem solid_writeKeyword (e : String × String) : Solid (writeKeyword e).toList := by
  rw [toList_writeKeyword]
  exact solid_cons _ rfl

theorem parses_keyword (e : String × String) :
    (pair quotedString quotedString).Parses (writeKeyword e).toList e := by
  rw [toList_writeKeyword]
  exact parses_pair (solid_stringLiteral _) ((parses_quotedString e.1).before _)
    (solid_stringLiteral _) ((parses_quotedString e.2).before _)

/-- The edges of a state as they are written. -/
def edgesText (edges : List Edge) : List Char := inlineText (fun e => (writeEdge e).toList) edges

theorem parses_edges {edges : List Edge} (h : ∀ e ∈ edges, e.target ≤ maxPosition) :
    (list edge).Parses (edgesText edges) edges := by
  exact parses_inlineText (refuses_edge (by decide)) fun e he => ⟨parses_edge (h e he), solid_writeEdge e⟩

/-! ### The declarations -/

/-- A declaration on a line of its own behind an empty line. -/
def declaredText (declaration : String) (value : List Char) : List Char :=
  "\n\n  ".toList ++ declaration.toList ++ (" =".toList ++ (value ++ [';']))

theorem parses_declared (declaration : String) {value : TableReader α} {v : List Char} {a : α}
    (hd : Solid declaration.toList) (hv : value.ParsesBefore v ';' a) :
    (declared declaration value).Parses (declaredText declaration v) a := by
  have hb : Blanks "\n\n  ".toList := by decide
  apply (parses_lexeme hb hd (parses_text declaration)).bind
  apply (parses_lexeme_char (x := '=') blanks_space rfl).bind
  apply hv.bind
  exact (parses_lexeme_char (x := ';') blanks_nil rfl).bind_pure fun _ => a

theorem parses_declaredLines (declaration : String) {item : TableReader α} {w : α → List Char}
    {items : List α} (hd : Solid declaration.toList) (hitem : item.Refuses ']')
    (hitems : ParsesAll item w items) :
    (declared declaration (list item)).Parses (declaredText declaration (linesText w items))
      items :=
  parses_declared declaration hd ((parses_linesText hitem hitems).before ';')

/-- The tables of `lexer` as they are written. -/
def partsOf (lexer : Lexer) : Parts where
  entry := lexer.table.entry
  accepting := lexer.table.accepting
  transitions := lexer.table.transitions
  ignored := lexer.ignored.keys
  keywords := lexer.keywords.entries

/-- All numbers in the tables have 32 bits. -/
structure Parts.Narrow (p : Parts) : Prop where
  entry : p.entry ≤ maxPosition
  accepting : ∀ e ∈ p.accepting, e.1 ≤ maxPosition
  transitions : ∀ edges ∈ p.transitions, ∀ e ∈ edges, e.target ≤ maxPosition

/-- The text of the tables behind the opening of their module. -/
def Parts.body (p : Parts) : List Char :=
  "\n  ".toList ++ attributes.toList ++
  (declaredText entryDeclaration (' ' :: Nat.toDigits 10 p.entry) ++
  (declaredText acceptingDeclaration
    (linesText (fun e => (writeAccepting e).toList) p.accepting) ++
  (declaredText transitionsDeclaration (linesText edgesText p.transitions) ++
  (declaredText ignoreDeclaration (linesText (fun s => stringLiteral s.toList) p.ignored) ++
  declaredText keywordsDeclaration
    (linesText (fun e => (writeKeyword e).toList) p.keywords)))))

theorem toList_writeTables (lexer : Lexer) :
    (writeTables lexer).toList = moduleOpening.toList ++ (partsOf lexer).body ++ ['\n'] := by
  simp [writeTables, Parts.body, partsOf, declaredText, toList_listItem, toList_writeEdges,
    edgesText, quoteString, linesText, List.flatMap_map, StateTable.transitions]

/-- The tables are read back up to the user code. -/
theorem parses_tables {p : Parts} (h : p.Narrow) :
    tables.Parses ("\n\n".toList ++ moduleOpening.toList ++ p.body) p := by
  have hopening : (lexeme (text moduleOpening)).Parses
      ("\n\n".toList ++ moduleOpening.toList) () :=
    parses_lexeme (by decide) (by decide) (parses_text moduleOpening)
  have hattributes : (lexeme (text attributes)).Parses ("\n  ".toList ++ attributes.toList) () :=
    parses_lexeme (by decide) (by decide) (parses_text attributes)
  have hentry : (lexeme number).ParsesBefore (' ' :: Nat.toDigits 10 p.entry) ';' p.entry :=
    parsesBefore_lexeme blanks_space (solid_toDigits _) (parsesBefore_number h.entry rfl)
  have haccepting : ParsesAll (pair number quotedString) (fun e => (writeAccepting e).toList)
      p.accepting :=
    fun e he => ⟨parses_accepting (h.accepting e he), solid_writeAccepting e⟩
  have htransitions : ParsesAll (list edge) edgesText p.transitions := fun edges hedges =>
    ⟨parses_edges (h.transitions edges hedges), solid_cons _ rfl⟩
  have hignored : ParsesAll quotedString (fun s => stringLiteral s.toList) p.ignored := fun s _ =>
    ⟨parses_quotedString s, solid_stringLiteral _⟩
  have hkeywords : ParsesAll (pair quotedString quotedString) (fun e => (writeKeyword e).toList)
      p.keywords :=
    fun e _ => ⟨parses_keyword e, solid_writeKeyword e⟩
  rw [Parts.body]
  apply hopening.bind
  apply hattributes.bind
  apply (parses_declared entryDeclaration (by decide) hentry).bind
  refine (parses_declaredLines acceptingDeclaration (by decide) (refuses_pair _ _ (by decide))
    haccepting).bind ?_
  refine (parses_declaredLines transitionsDeclaration (by decide)
    (refuses_list _ rfl (by decide)) htransitions).bind ?_
  refine (parses_declaredLines ignoreDeclaration (by decide)
    (refuses_quotedString (by decide)) hignored).bind ?_
  exact (parses_declaredLines keywordsDeclaration (by decide)
    (refuses_pair _ _ (by decide)) hkeywords).bind_pure fun keywords => { p with keywords }

end LexerGen.Source
