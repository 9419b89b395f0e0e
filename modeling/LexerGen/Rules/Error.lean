import LexerGen.Diagnostic
import LexerGen.Text.Cursor
import LexerGen.Text.Quoted

/-! What can be wrong with a rule file. -/

namespace LexerGen

open Text

inductive RuleError where
  /-- The file ends where something was expected. -/
  | missing (expected : String) (pos : Nat)
  /-- A character stands where something else was expected. -/
  | expectedFound (expected : String) (found : Char) (pos : Nat)
  /-- A character that starts no declaration. -/
  | unexpected (found : Char) (pos : Nat)
  /-- A bracketed name that is no label. -/
  | invalidLabel (label : String) (span : Span)
  /-- A body that starts at `start` and has no terminator before the file ends at `stop`. -/
  | unterminated (start stop : Nat)
deriving Repr, DecidableEq

namespace RuleError

/-- The error of a reader that expected something at `c`. -/
def expected (what : String) (c : Cursor) : RuleError :=
  match c.peek? with
  | none => .missing what c.pos
  | some found => .expectedFound what found c.pos

/-- The place that the error is about. -/
def span : RuleError → Span
  | missing _ pos => .point pos
  | expectedFound _ found pos => .ofChar pos found
  | unexpected found pos => .ofChar pos found
  | invalidLabel _ span => span
  | unterminated start _ => .point start

def message : RuleError → String
  | missing expected _ => s!"unexpected end of input, expected {expected}"
  | expectedFound expected found _ => s!"expected {expected}, found {quoted found}"
  | unexpected found _ => s!"unexpected character {quoted found} at start of rule"
  | invalidLabel label _ => s!"invalid rule label: `{label}`"
  | unterminated _ _ => "unterminated rule body: `$` not found"

def diagnostic (e : RuleError) : Diagnostic :=
  match e with
  | missing expected _ | expectedFound expected _ _ =>
    { message := e.message
      labels := [{ span := e.span, message := s!"expected {expected} here" }] }
  | unexpected _ _ =>
    { message := e.message
      labels := [{ span := e.span, message := "found unexpected character here" }]
      notes :=
        ["a rule starts with a NAME or with `[keywords]`, `[ignore]` or `[user_def, NAME]`"] }
  | invalidLabel _ _ =>
    { message := e.message
      labels := [{ span := e.span, message := "invalid rule label" }]
      notes := ["expected one of `keywords`, `ignore`, `user_def`"] }
  | unterminated start stop =>
    { message := e.message
      labels :=
        [{ span := e.span, message := "rule body starts here" },
         { style := .secondary, span := ⟨start, stop⟩
           message := "no unescaped `$` before the end of the file" }] }

end RuleError

end LexerGen
