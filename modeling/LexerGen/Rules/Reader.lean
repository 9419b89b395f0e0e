import LexerGen.Rules.Declaration
import LexerGen.Rules.Error
import LexerGen.Text.Blank
import LexerGen.Text.Reader

/-! The reader of rule files. Blanks and comments may stand before every token, with one exception:
the body of user code starts right behind the bracket. The first character that cannot continue a
declaration is an error, and nothing behind it matters. -/

namespace LexerGen.Rules

open Text

abbrev RuleReader := Reader RuleError

/-- The blanks that separate tokens. -/
def isSpace (c : Char) : Bool := c = ' ' || c = '\t' || c = '\r' || c = '\n'

def isNameStart (c : Char) : Bool := c.isAlpha || c = '_'

def isNameChar (c : Char) : Bool := c.isAlphanum || c = '_'

/-- The characters of keywords. -/
def isWordChar (c : Char) : Bool :=
  !isBlank c && !(c = ',' || c = '\x7d' || c = '$' || c = '#')

/-- What is left of the text at `pos` behind blanks and comments. A comment starts with `#` and ends
with its line; `comment` says whether the text starts inside one. -/
def skipFrom (comment : Bool) (pos : Nat) : List Char → Cursor
  | [] => ⟨pos, []⟩
  | x :: rest =>
    if comment then skipFrom (x ≠ '\n') (pos + x.utf8Size) rest
    else if isSpace x then skipFrom false (pos + x.utf8Size) rest
    else if x = '#' then skipFrom true (pos + x.utf8Size) rest
    else ⟨pos, x :: rest⟩

theorem moves_skipFrom (comment : Bool) (pos : Nat) (cs : List Char) :
    Cursor.Moves ⟨pos, cs⟩ (skipFrom comment pos cs) := by
  induction cs generalizing comment pos with
  | nil => exact .refl _
  | cons x rest ih =>
    have step : Cursor.Moves ⟨pos, x :: rest⟩ ⟨pos + x.utf8Size, rest⟩ := ⟨[x], rfl, by simp⟩
    unfold skipFrom
    split
    · exact step.trans (ih _ _)
    · split
      · exact step.trans (ih _ _)
      · split
        · exact step.trans (ih _ _)
        · exact .refl _

/-- Skips blanks and comments. -/
def skip : RuleReader Unit where
  run c := .ok ((), skipFrom false c.pos c.rest)
  moves {c c' a} h := by
    obtain ⟨-, rfl⟩ := Prod.mk.inj (Except.ok.inj h)
    exact moves_skipFrom false c.pos c.rest

/-- Reads the character `x`. -/
def expect (x : Char) : RuleReader Unit := do
  skip
  let _ ← Reader.satisfy (· = x) (RuleError.expected (quoted x))

/-- Reads a name. -/
def name : RuleReader (List Char) := do
  skip
  let x ← Reader.satisfy isNameStart (RuleError.expected "a name")
  let xs ← Reader.takeWhile isNameChar
  return x :: xs

/-- Reads a keyword. -/
def word : RuleReader (List Char) := do
  skip
  let x ← Reader.satisfy isWordChar (RuleError.expected "a keyword")
  let xs ← Reader.takeWhile isWordChar
  return x :: xs

/-- A body as it is meant, and the place where it ends. -/
structure Body where
  text : List Char
  stop : Nat

/-- Reads the text at `pos` up to the first `$` without a backslash before it, and gives what it
means with `seen` before it, where `seen` is in reverse order. -/
def bodyFrom (seen : List Char) (pos : Nat) : List Char → Option (Body × Cursor)
  | [] => none
  | '\\' :: '$' :: rest => bodyFrom ('$' :: seen) (pos + 2) rest
  | '$' :: rest => some (⟨seen.reverse, pos⟩, ⟨pos + 1, rest⟩)
  | x :: rest => bodyFrom (x :: seen) (pos + x.utf8Size) rest

theorem moves_of_bodyFrom {seen : List Char} {pos : Nat} {cs : List Char} {b : Body} {c : Cursor}
    (h : bodyFrom seen pos cs = some (b, c)) : Cursor.Moves ⟨pos, cs⟩ c := by
  fun_induction bodyFrom seen pos cs with
  | case1 => cases h
  | case2 _ _ rest ih => exact Cursor.Moves.trans ⟨['\\', '$'], rfl, rfl⟩ (ih h)
  | case3 _ _ rest =>
    obtain ⟨-, rfl⟩ := Prod.mk.inj (Option.some.inj h)
    exact ⟨['$'], rfl, rfl⟩
  | case4 _ _ x rest _ _ ih => exact Cursor.Moves.trans ⟨[x], rfl, by simp⟩ (ih h)

/-- Reads a body and its terminator. -/
def body : RuleReader Body where
  run c :=
    match bodyFrom [] c.pos c.rest with
    | none => .error (.unterminated c.pos (c.pos + byteLength c.rest))
    | some r => .ok r
  moves {c c' a} h := by
    split at h
    · cases h
    · rename_i h₁
      rw [Except.ok.inj h] at h₁
      exact moves_of_bodyFrom h₁

section

variable {α : Type}

/-- The cursor behind blanks and comments. -/
def skipped (c : Cursor) : Cursor := skipFrom false c.pos c.rest

theorem moves_skipped (c : Cursor) : c.Moves (skipped c) := moves_skipFrom false c.pos c.rest

/-- Reads entries with commas between them and maybe one behind them, up to the closing brace. -/
def entriesFrom (entry : RuleReader α) (c : Cursor) : Except RuleError (List α × Cursor) :=
  match (skipped c).next? with
  | some ('\x7d', c₁) => .ok ([], c₁)
  | _ =>
    match h : entry.run c with
    | .error e => .error e
    | .ok (a, c₂) =>
      match h' : (skipped c₂).next? with
      | some (',', c₃) =>
        have := (((entry.moves h).trans (moves_skipped c₂)).trans_advances
          (Cursor.advances_of_next? h')).length_lt
        match entriesFrom entry c₃ with
        | .error e => .error e
        | .ok (as, c₄) => .ok (a :: as, c₄)
      | some ('\x7d', c₃) => .ok ([a], c₃)
      | _ => .error (.expected "',' or '\x7d'" (skipped c₂))
termination_by c.rest.length

theorem moves_of_entriesFrom {entry : RuleReader α} {c c' : Cursor} {as : List α}
    (h : entriesFrom entry c = .ok (as, c')) : c.Moves c' := by
  fun_induction entriesFrom entry c generalizing as with
  | case1 c c₁ h₁ =>
    obtain ⟨-, rfl⟩ := Prod.mk.inj (Except.ok.inj h)
    exact (moves_skipped c).trans (Cursor.advances_of_next? h₁).moves
  | case2 => cases h
  | case3 => cases h
  | case4 c a c₂ h₁ c₃ h₂ _ as' c₄ h₃ _ ih =>
    obtain ⟨-, rfl⟩ := Prod.mk.inj (Except.ok.inj h)
    exact ((entry.moves h₁).trans (moves_skipped c₂)).trans
      ((Cursor.advances_of_next? h₂).moves.trans (ih h₃))
  | case5 c a c₂ h₁ c₃ h₂ =>
    obtain ⟨-, rfl⟩ := Prod.mk.inj (Except.ok.inj h)
    exact ((entry.moves h₁).trans (moves_skipped c₂)).trans (Cursor.advances_of_next? h₂).moves
  | case6 => cases h

/-- Reads entries in braces. -/
def braced (entry : RuleReader α) : RuleReader (List α) := do
  expect '\x7b'
  ⟨entriesFrom entry, moves_of_entriesFrom⟩

end

/-- Reads a keyword with its tag, which comes first. -/
def keywordEntry : RuleReader (String × String) := do
  let tag ← name
  expect ':'
  let literal ← word
  return (.ofList literal, .ofList tag)

/-- Reads a tag. -/
def ignoreEntry : RuleReader String := do
  let tag ← name
  return .ofList tag

/-- Reads a name, a colon and a body. -/
def pattern : RuleReader RuleKind := do
  let tag ← name
  expect ':'
  skip
  let start ← Reader.here
  let b ← body
  return .pattern (.ofList tag) (.ofList b.text) ⟨start.pos, b.stop⟩

/-- Reads what follows a label. -/
def labelled (label : List Char) (span : Span) : RuleReader RuleKind :=
  if label = "keywords".toList then do
    expect ']'
    let entries ← braced keywordEntry
    expect '$'
    return .keywords entries
  else if label = "ignore".toList then do
    expect ']'
    let tags ← braced ignoreEntry
    expect '$'
    return .ignore tags
  else if label = "user_def".toList then do
    expect ','
    let tag ← name
    expect ']'
    let b ← body
    return .userCode (.ofList tag) (.ofList b.text)
  else Reader.fail fun _ => .invalidLabel (.ofList label) span

/-- Reads a declaration that starts with a bracket. -/
def bracketed : RuleReader RuleKind := do
  expect '['
  skip
  let start ← Reader.here
  let label ← name
  let stop ← Reader.here
  labelled label ⟨start.pos, stop.pos⟩

/-- Reads a declaration, which starts with `x` at the cursor's place. -/
def statement (x : Char) : RuleReader RuleKind :=
  if isNameStart x then pattern
  else if x = '[' then bracketed
  else Reader.fail fun c => .unexpected x c.pos

/-- Reads the next declaration, or finds the end of the file. -/
def declaration : RuleReader Declaration := do
  skip
  let start ← Reader.here
  match start.peek? with
  | none => return ⟨.endOfFile, .point start.pos⟩
  | some x =>
    let kind ← statement x
    let stop ← Reader.here
    return ⟨kind, ⟨start.pos, stop.pos⟩⟩

end LexerGen.Rules
