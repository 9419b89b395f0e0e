import LexerGen.Text.Span

/-! Declarations of a rule file. -/

namespace LexerGen

open Text

inductive RuleKind where
  /-- Text that matches `body` becomes a token with the tag; `bodySpan` is the place of the body as
  it was written. -/
  | pattern (tag body : String) (bodySpan : Span)
  /-- Words with the tags that they have instead of those of their patterns. -/
  | keywords (entries : List (String × String))
  /-- Tags whose tokens are dropped. -/
  | ignore (tags : List String)
  /-- Code that goes with a tag and is passed on as it is. -/
  | userCode (tag body : String)
  /-- Nothing but blanks and comments is left. -/
  | endOfFile
deriving Repr, DecidableEq

structure Declaration where
  kind : RuleKind
  span : Span
deriving Repr, DecidableEq

namespace RuleKind

def render : RuleKind → String
  | pattern tag body _ => s!"Pattern({tag} -- {body})"
  | keywords entries =>
    let pairs := entries.map fun (word, tag) => tag ++ ":" ++ word
    "Keywords\x7b " ++ String.intercalate ", " pairs ++ " \x7d"
  | ignore tags => "Ignore\x7b " ++ String.intercalate ", " tags ++ " \x7d"
  | userCode tag _ => s!"UserCode({tag})"
  | endOfFile => "End"

end RuleKind

namespace Declaration

def isEnd (d : Declaration) : Bool := d.kind = .endOfFile

/-- The tag that a declaration is about. -/
def tag? (d : Declaration) : Option String :=
  match d.kind with
  | .pattern tag _ _ => some tag
  | .userCode tag _ => some tag
  | _ => none

def render (d : Declaration) : String := s!"{d.kind.render} at {d.span.render}"

end Declaration

end LexerGen
