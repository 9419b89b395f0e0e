import LexerGen.Text.Span

/-! Diagnostics: an error with the places of a text that it is about. -/

namespace LexerGen

inductive LabelStyle where
  | primary
  | secondary
deriving Repr, DecidableEq

/-- A remark on a part of a text. -/
structure DiagnosticLabel where
  style : LabelStyle := .primary
  span : Text.Span
  message : String
deriving Repr, DecidableEq

structure Diagnostic where
  message : String
  labels : List DiagnosticLabel := []
  notes : List String := []
deriving Repr, DecidableEq

end LexerGen
