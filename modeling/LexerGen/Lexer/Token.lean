import LexerGen.Diagnostic
import LexerGen.Text.Quoted
import LexerGen.Text.Utf8

/-! Tokens, and what can go wrong while a text is cut into them. -/

namespace LexerGen

open Text

structure Token where
  tag : String
  text : String
  span : Span
deriving Repr, DecidableEq

inductive ScanError where
  /-- No token starts here that goes on with the character found at `position`. -/
  | noMatch (position : Nat) (found : Char)
  /-- The text ends inside a token that starts at `start`. -/
  | unexpectedEnd (start : Nat)
  /-- A token ends beyond what a span can hold. -/
  | inputTooLong (position : Nat)
deriving Repr, DecidableEq

namespace ScanError

def position : ScanError → Nat
  | noMatch position _ => position
  | unexpectedEnd start => start
  | inputTooLong position => position

def message : ScanError → String
  | noMatch position found => s!"no rule matches {quoted found} at byte {position}"
  | unexpectedEnd start => s!"input ends inside an unfinished token starting at byte {start}"
  | inputTooLong position =>
    s!"token at byte {position} lies beyond the 4 GiB a span can address"

def diagnostic (e : ScanError) : Diagnostic :=
  let label : DiagnosticLabel :=
    match e with
    | noMatch position found =>
      { span := .ofChar position found, message := "no rule matches here" }
    | unexpectedEnd start => { span := .point start, message := "unfinished token starts here" }
    | inputTooLong position => { span := .point position, message := "token starts here" }
  { message := e.message, labels := [label] }

end ScanError

/-- The token of `text` at byte `start`, if a span can hold its end. -/
def Token.at (tag text : String) (start : Nat) : Except ScanError Token :=
  let stop := start + byteLength text.toList
  if maxPosition < stop then .error (.inputTooLong start) else .ok ⟨tag, text, ⟨start, stop⟩⟩

end LexerGen
