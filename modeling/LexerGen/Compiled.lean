import LexerGen.Lexer.Basic
import LexerGen.Nfa.Compile
import LexerGen.Rules.Stream

/-! From the declarations of a rule file to a lexer. Patterns are joined in the order in which they
are declared, and the earlier one has the higher claim to a text that several of them match. -/

namespace LexerGen

open Text

/-- A pattern declaration. -/
structure Pattern where
  tag : String
  body : String
  span : Span
deriving Repr, DecidableEq

namespace Declaration

def pattern? (d : Declaration) : Option Pattern :=
  match d.kind with
  | .pattern tag body span => some ⟨tag, body, span⟩
  | _ => none

/-- The words of a declaration with their tags. -/
def keywordEntries (d : Declaration) : List (String × String) :=
  match d.kind with
  | .keywords entries => entries
  | _ => []

/-- The tags that a declaration ignores. -/
def ignoredTags (d : Declaration) : List String :=
  match d.kind with
  | .ignore tags => tags
  | _ => []

/-- The tag of a declaration with the code for it. -/
def userCodeEntry? (d : Declaration) : Option (String × String) :=
  match d.kind with
  | .userCode tag body => some (tag, body)
  | _ => none

end Declaration

inductive CompileError where
  | rule (error : RuleError)
  /-- The body of the pattern with the tag is wrong at `span` of the rule file. -/
  | pattern (tag : String) (span : Span) (error : Regex.Error)
  /-- The patterns together make too large an automaton. -/
  | automaton (error : Regex.Error)
  | noPatterns
deriving Repr, DecidableEq

namespace CompileError

def message : CompileError → String
  | rule error => error.message
  | pattern tag _ error => s!"invalid pattern `{tag}`: {error.message}"
  | automaton error => s!"the combined automaton is too large: {error.message}"
  | noPatterns => "no patterns were declared"

def diagnostic (e : CompileError) : Diagnostic :=
  match e with
  | rule error => error.diagnostic
  | pattern _ span error =>
    { message := e.message, labels := [{ span, message := error.fault.label }] }
  | automaton _ => { message := e.message }
  | noPatterns =>
    { message := e.message
      notes := ["declare at least one rule of the form `NAME : regex$`"] }

end CompileError

/-- `cs` cut at byte `n`. -/
def splitAtByte (n : Nat) : List Char → List Char × List Char
  | [] => ([], [])
  | c :: cs =>
    if n < c.utf8Size then ([], c :: cs)
    else
      let (before, behind) := splitAtByte (n - c.utf8Size) cs
      (c :: before, behind)

/-- The place in the rule file of the character at byte `pos` of a pattern's body. Each `$` of the
body was written with a backslash, which is a byte more. Positions have 32 bits. -/
def Pattern.errorSpan (p : Pattern) (pos : Nat) : Span :=
  let (before, behind) := splitAtByte pos p.body.toList
  let start := (p.span.start + byteLength before + before.count '$') % (maxPosition + 1)
  let width := (behind.head?.map Char.utf8Size).getD 0
  let stop := min ((start + width) % (maxPosition + 1)) p.span.stop
  ⟨min start stop, stop⟩

/-- The fragment of a pattern, which accepts with the tag and the priority. -/
def Pattern.fragment (p : Pattern) (priority : Nat) : Except CompileError Nfa.Fragment :=
  match Nfa.Fragment.compile p.body.toList with
  | .error e => .error (.pattern p.tag (p.errorSpan e.pos) e)
  | .ok f => .ok (f.stamp p.tag priority)

/-- Joins the fragments of the patterns to `f`; the first of them has the given priority. -/
def joinPatterns (f : Nfa.Fragment) (priority : Nat) :
    List Pattern → Except CompileError Nfa.Fragment
  | [] => .ok f
  | p :: rest =>
    match p.fragment priority with
    | .error e => .error e
    | .ok g => joinPatterns (f.union g) (priority + 1) rest

/-- The fragment of all patterns together. -/
def combine : List Pattern → Except CompileError Nfa.Fragment
  | [] => .error .noPatterns
  | p :: rest =>
    match p.fragment 0 with
    | .error e => .error e
    | .ok f => joinPatterns f 1 rest

/-- A lexer and the user code of its tags. -/
structure Compiled where
  lexer : Lexer
  userCode : Dictionary
deriving DecidableEq

namespace Compiled

/-- Compiles declarations. Of several keyword or user code entries for the same key the last one
counts. -/
def ofDeclarations (ds : List Declaration) : Except CompileError Compiled :=
  match combine (ds.filterMap Declaration.pattern?) with
  | .error e => .error e
  | .ok f =>
    match f.toTable with
    | .error e => .error (.automaton e)
    | .ok table =>
      .ok { lexer :=
              { table
                keywords := StringMap.ofList (ds.flatMap Declaration.keywordEntries)
                ignored := NameSet.ofList (ds.flatMap Declaration.ignoredTags) }
            userCode := StringMap.ofList (ds.filterMap Declaration.userCodeEntry?) }

/-- Compiles a rule file. -/
def ofSource (source : String) : Except CompileError Compiled :=
  match Rules.parse source with
  | .error e => .error (.rule e)
  | .ok ds => ofDeclarations ds

end Compiled

end LexerGen
