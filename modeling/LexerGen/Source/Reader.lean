import LexerGen.Source.Writer
import LexerGen.Table.Checked
import LexerGen.Text.CodePoint
import LexerGen.Text.Reader

/-! Reading the tables of generated source back. Only the part behind the last opening of a table
module is looked at, and of it only what comes before the user code. Blanks may stand between
tokens. A list ends where no further item can be read, so what is wrong inside an item is found at
its start. -/

namespace LexerGen.Source

open Text

inductive ReadError where
  /-- No table module is opened. -/
  | missingHeader
  /-- The text is not what it should be at byte `offset`. -/
  | malformed (offset : Nat)
  /-- The tables do not fit together. -/
  | table (error : TableError)
deriving Repr, DecidableEq

def ReadError.message : ReadError → String
  | missingHeader => "no generated tables found"
  | malformed offset => s!"malformed generated tables at byte {offset}"
  | table error => error.message

/-- A reader whose errors are the positions where it could not go on. -/
abbrev TableReader := Reader Nat

def isSpace (c : Char) : Bool := c = ' ' || c = '\t' || c = '\r' || c = '\n'

/-- What `r` reads behind blanks. -/
def lexeme {α : Type} (r : TableReader α) : TableReader α := do
  let _ ← Reader.takeWhile isSpace
  r

def char (x : Char) : TableReader Unit := do
  let _ ← Reader.satisfy (· = x) Cursor.pos

def text (s : String) : TableReader Unit := Reader.exactly s.toList Cursor.pos

/-- Reads a number of 32 bits. -/
def number : TableReader Nat where
  run c :=
    let (digits, c₁) := c.takeWhile isDecimalDigit
    if digits.isEmpty then .error c.pos
    else if maxPosition < decimalValue digits then .error c.pos
    else .ok (decimalValue digits, c₁)
  moves {c c' n} h := by
    simp only at h
    split at h
    · cases h
    · split at h
      · cases h
      · obtain ⟨-, rfl⟩ := Prod.mk.inj (Except.ok.inj h)
        exact Cursor.moves_takeWhile _ c

/-- Reads what follows a backslash in a literal. -/
def unescape? (c : Cursor) : Option (Char × Cursor) :=
  match c.next? with
  | none => none
  | some (x, c₁) =>
    match x with
    | 'n' => some ('\n', c₁)
    | 't' => some ('\t', c₁)
    | 'r' => some ('\r', c₁)
    | '0' => some ('\x00', c₁)
    | '\\' => some ('\\', c₁)
    | '\'' => some ('\'', c₁)
    | '"' => some ('"', c₁)
    | 'u' => bracedCodePoint? c₁
    | _ => none

theorem advances_of_unescape? {c c' : Cursor} {x : Char} (h : unescape? c = some (x, c')) :
    c.Advances c' := by
  unfold unescape? at h
  split at h
  · cases h
  · rename_i y c₁ h₁
    have step := Cursor.advances_of_next? h₁
    split at h
    case h_8 => exact step.trans (advances_of_bracedCodePoint? h)
    case h_9 => cases h
    all_goals
      obtain ⟨-, rfl⟩ := Prod.mk.inj (Option.some.inj h)
      exact step

/-- Reads one character of a literal between the quotes `quote`. -/
def literalChar (quote : Char) (c : Cursor) : Except Nat (Char × Cursor) :=
  match c.next? with
  | none => .error c.pos
  | some (x, c₁) =>
    if x = '\\' then
      match unescape? c₁ with
      | none => .error c.pos
      | some r => .ok r
    else if x = quote then .error c.pos
    else .ok (x, c₁)

theorem advances_of_literalChar {quote x : Char} {c c' : Cursor}
    (h : literalChar quote c = .ok (x, c')) : c.Advances c' := by
  unfold literalChar at h
  split at h
  · cases h
  · rename_i y c₁ h₁
    have step := Cursor.advances_of_next? h₁
    split at h
    · split at h
      · cases h
      · rename_i r h₂
        rw [Except.ok.inj h] at h₂
        exact step.trans (advances_of_unescape? h₂)
    · split at h
      · cases h
      · obtain ⟨-, rfl⟩ := Prod.mk.inj (Except.ok.inj h)
        exact step

/-- Reads a character literal. -/
def quotedChar : TableReader Char := do
  char '\''
  let x ← ⟨literalChar '\'', fun h => (advances_of_literalChar h).moves⟩
  char '\''
  return x

/-- Reads the characters of a string literal for as long as there are any; `seen` comes before them,
in reverse order. -/
def literalChars (seen : List Char) (c : Cursor) : List Char × Cursor :=
  match h : literalChar '"' c with
  | .error _ => (seen.reverse, c)
  | .ok (x, c₁) =>
    have := (advances_of_literalChar h).length_lt
    literalChars (x :: seen) c₁
termination_by c.rest.length

theorem moves_literalChars (seen : List Char) (c : Cursor) : c.Moves (literalChars seen c).2 := by
  fun_induction literalChars seen c with
  | case1 => exact Cursor.Moves.refl _
  | case2 _ _ _ _ h _ ih => exact (advances_of_literalChar h).moves.trans ih

/-- Reads a string literal. -/
def quotedString : TableReader String := do
  char '"'
  let s ← ⟨fun c => .ok (literalChars [] c), fun {c _ _} h => by
    have := moves_literalChars [] c
    rwa [Except.ok.inj h] at this⟩
  char '"'
  return .ofList s

section

variable {α β : Type}

/-- Reads a comma and an item over and over; stops before a comma that no item follows. `seen` comes
before the items, in reverse order. -/
def itemsFrom (item : TableReader α) (seen : List α) (c : Cursor) : List α × Cursor :=
  match h : (lexeme (char ',')).run c with
  | .error _ => (seen.reverse, c)
  | .ok (_, c₁) =>
    match h' : (lexeme item).run c₁ with
    | .error _ => (seen.reverse, c)
    | .ok (a, c₂) =>
      have := ((Reader.consumes_bind _ fun _ => (Reader.consumes_satisfy _ _).bind _) h
        |>.trans_moves ((lexeme item).moves h')).length_lt
      itemsFrom item (a :: seen) c₂
termination_by c.rest.length

theorem moves_itemsFrom (item : TableReader α) (seen : List α) (c : Cursor) :
    c.Moves (itemsFrom item seen c).2 := by
  fun_induction itemsFrom item seen c with
  | case1 => exact Cursor.Moves.refl _
  | case2 => exact Cursor.Moves.refl _
  | case3 _ _ _ _ h _ _ h' _ ih =>
    exact (Reader.moves _ h).trans ((Reader.moves _ h').trans ih)

/-- Reads items with commas between them; none if the first cannot be read. -/
def separated (item : TableReader α) : TableReader (List α) where
  run c :=
    match (lexeme item).run c with
    | .error _ => .ok ([], c)
    | .ok (a, c₁) => .ok (itemsFrom item [a] c₁)
  moves {c c' as} h := by
    split at h
    · obtain ⟨-, rfl⟩ := Prod.mk.inj (Except.ok.inj h)
      exact Cursor.Moves.refl _
    · rename_i a c₁ h₁
      have := (Reader.moves _ h₁).trans (moves_itemsFrom item [a] c₁)
      rwa [Except.ok.inj h] at this

/-- Reads a list of items, behind which a comma may stand. -/
def list (item : TableReader α) : TableReader (List α) := do
  lexeme (text "&[")
  let items ← separated item
  let _ ← Reader.optional (lexeme (char ','))
  lexeme (char ']')
  return items

/-- Reads two values in parentheses. -/
def pair (first : TableReader α) (second : TableReader β) : TableReader (α × β) := do
  char '('
  let a ← lexeme first
  lexeme (char ',')
  let b ← lexeme second
  lexeme (char ')')
  return (a, b)

/-- Reads a value with its declaration before it. -/
def declared (declaration : String) (value : TableReader α) : TableReader α := do
  lexeme (text declaration)
  lexeme (char '=')
  let a ← value
  lexeme (char ';')
  return a

end

/-- Reads an edge. -/
def edge : TableReader Edge := do
  char '('
  let lo ← lexeme quotedChar
  lexeme (char ',')
  let hi ← lexeme quotedChar
  lexeme (char ',')
  let target ← lexeme number
  lexeme (char ')')
  return ⟨⟨lo, hi⟩, target⟩

/-- The tables as they are written. -/
structure Parts where
  entry : Nat
  accepting : List (Nat × String)
  transitions : List (List Edge)
  ignored : List String
  keywords : List (String × String)

/-- Reads the tables up to the user code. -/
def tables : TableReader Parts := do
  lexeme (text moduleOpening)
  lexeme (text attributes)
  let entry ← declared entryDeclaration (lexeme number)
  let accepting ← declared acceptingDeclaration (list (pair number quotedString))
  let transitions ← declared transitionsDeclaration (list (list edge))
  let ignored ← declared ignoreDeclaration (list quotedString)
  let keywords ← declared keywordsDeclaration (list (pair quotedString quotedString))
  return { entry, accepting, transitions, ignored, keywords }

/-- The lexer of the tables, if they fit together. -/
def Parts.toLexer (p : Parts) : Except TableError Lexer :=
  match StateTable.ofParts p.entry p.transitions p.accepting with
  | .error e => .error e
  | .ok table =>
    .ok { table, keywords := StringMap.ofList p.keywords, ignored := NameSet.ofList p.ignored }

/-- The text that opens a table module: the header, an empty line, and the module. -/
def opening : List Char := header.toList ++ '\n' :: '\n' :: moduleOpening.toList

/-- The cursor behind the header of the last opening in the text at `pos`, or `found` if there is
none. -/
def lastOpening? (found : Option Cursor) (pos : Nat) : List Char → Option Cursor
  | [] => found
  | x :: rest =>
    let here : Cursor := ⟨pos, x :: rest⟩
    let found := if opening.isPrefixOf here.rest then here.skip? header.toList else found
    lastOpening? found (pos + x.utf8Size) rest

/-- The lexer whose tables stand in generated source. -/
def read (source : String) : Except ReadError Lexer :=
  match lastOpening? none 0 source.toList with
  | none => .error .missingHeader
  | some c =>
    match tables.run c with
    | .error offset => .error (.malformed offset)
    | .ok (parts, _) =>
      match parts.toLexer with
      | .error e => .error (.table e)
      | .ok lexer => .ok lexer

end LexerGen.Source
