import LexerGen.Command.FileError
import LexerGen.Command.Options
import LexerGen.Command.Template
import LexerGen.Compiled
import LexerGen.Source.Writer

/-! The command: it compiles a rule file and writes generated source, or cuts a text into tokens. It
works on any host that can read and write files and print. -/

namespace LexerGen.Command

open Text

/-- What the command needs of its surroundings. -/
structure Host (m : Type → Type) where
  readText : String → m (Except FileError String)
  /-- Creates a file or replaces what it holds. -/
  writeText : String → String → m (Except WriteError Unit)
  print : String → m Unit
  /-- Reports an error. -/
  report : String → m Unit

/-- How the command ends. -/
inductive Exit where
  | success
  /-- A diagnostic was reported, or the arguments were wrong. -/
  | failure
  /-- A file could not be read or written. -/
  | fileFailure
deriving Repr, DecidableEq

def Exit.code : Exit → Nat
  | success => 0
  | failure => 1
  | fileFailure => 2

def versionText : String := "hlex 0.1.0\n"

def helpText : String :=
  "hlex 0.1.0\nA lexer generator.\n\nUSAGE:\n    hlex [FLAGS] [OPTIONS] <FILE>\n"

def defaultOutput : String := "lex.yy.rs"

/-- A token as a line of output: its tag, a tab, and its text as in a literal. -/
def tokenLine (t : Token) : String :=
  t.tag ++ "\t" ++ .ofList (escapeAll t.text.toList) ++ "\n"

/-- The lines of the tokens from `c` on, and the error that ends them if there is one. -/
def tokenLines (lexer : Lexer) (c : Cursor) : List String × Option ScanError :=
  match h : lexer.nextToken? c with
  | none => ([], none)
  | some (.error e) => ([], some e)
  | some (.ok (t, c')) =>
    have := Lexer.length_of_nextToken? h
    let (lines, e) := tokenLines lexer c'
    (tokenLine t :: lines, e)
termination_by c.rest.length

/-- The file that generated source goes to, if any. -/
def Options.target? (o : Options) : Option String :=
  match o.outFile, o.stdout with
  | some path, _ => some path
  | none, true => none
  | none, false => some defaultOutput

section

variable {m : Type → Type} [Monad m] (host : Host m)

/-- Reports that a file cannot be read. -/
def reportUnread (path : String) (e : FileError) : m Exit := do
  host.report (e.unread path)
  return .fileFailure

/-- Cuts the text of a file into tokens and prints them. -/
def scan (lexer : Lexer) (path : String) : m Exit := do
  match ← host.readText path with
  | .error e => reportUnread host path e
  | .ok input =>
    let (lines, error) := tokenLines lexer (.start input.toList)
    host.print (String.join lines)
    match error with
    | none => return .success
    | some e =>
      host.report e.diagnostic.message
      return .failure

/-- Writes generated source to its file, to standard output, or to both. -/
def emit (o : Options) (source : String) : m Exit := do
  let written ←
    match o.target? with
    | none => pure .success
    | some path =>
      match ← host.writeText path source with
      | .error e =>
        host.report (e.unwritten path)
        pure .fileFailure
      | .ok () => pure .success
  if written = .success && o.stdout then
    host.print source
  return written

/-- Generates source from the template that the options name. -/
def generate (o : Options) (c : Compiled) : m Exit := do
  match o.template with
  | none => emit host o (Source.write c.lexer c.userCode defaultTemplate)
  | some path =>
    match ← host.readText path with
    | .error e => reportUnread host path e
    | .ok template => emit host o (Source.write c.lexer c.userCode template)

/-- Does what the options say. -/
def runOptions (o : Options) : m Exit := do
  match ← host.readText o.file with
  | .error e => reportUnread host o.file e
  | .ok source =>
    match Compiled.ofSource source with
    | .error e =>
      host.report e.diagnostic.message
      return .failure
    | .ok c =>
      if o.dump then
        host.print c.lexer.table.render
      match o.scan with
      | some path => scan host c.lexer path
      | none => generate host o c

/-- Runs the command with the given arguments. -/
def run (args : List String) : m Exit := do
  match Options.parse args with
  | .error .help =>
    host.print helpText
    return .success
  | .error .version =>
    host.print versionText
    return .success
  | .error (.usage e) =>
    host.report e.message
    return .failure
  | .ok o => runOptions host o

end

end LexerGen.Command
