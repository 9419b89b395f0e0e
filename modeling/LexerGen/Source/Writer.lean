import LexerGen.Lexer.Basic
import LexerGen.Text.Literal

/-! Generated source: a template, and behind it the tables of a lexer as static data. Maps and sets
are written in the order of their keys, so equal lexers give equal text. -/

namespace LexerGen.Source

open Text

/-- The line that starts the generated part. -/
def header : String := "// @generated by hlex. Do not edit."

/-- How the generated part goes on behind the header. -/
def moduleOpening : String := "pub mod tables \x7b"

def quoteChar (c : Char) : String := String.ofList (charLiteral c)

def quoteString (s : String) : String := String.ofList (stringLiteral s.toList)

/-- An item of a list on a line of its own. -/
def line (item : String) : String := "    " ++ item ++ ",\n"

/-- A static list with the given declaration. -/
def listItem (declaration : String) (items : List String) : String :=
  "  " ++ declaration ++ " = &[\n" ++ String.join (items.map line) ++ "  ];\n"

def writeEdge (e : Edge) : String :=
  s!"({quoteChar e.range.lo}, {quoteChar e.range.hi}, {e.target})"

def writeEdges (row : Row) : String :=
  "&[" ++ String.intercalate ", " (row.edges.toList.map writeEdge) ++ "]"

def writeAccepting (e : Nat × String) : String := s!"({e.1}, {quoteString e.2})"

def writeKeyword (e : String × String) : String := s!"({quoteString e.1}, {quoteString e.2})"

def writeUserCode (e : String × String) : String :=
  s!"({quoteString e.1}, |s: &str, pos: &mut usize| {e.2})"

def entryDeclaration : String := "pub const ENTRY: u32"

def acceptingDeclaration : String := "pub static ACCEPTING: &[(u32, &str)]"

def transitionsDeclaration : String := "pub static TRANSITIONS: &[&[(char, char, u32)]]"

def ignoreDeclaration : String := "pub static IGNORE: &[&str]"

def keywordsDeclaration : String := "pub static KEYWORDS: &[(&str, &str)]"

def userCodeDeclaration : String := "pub static USER_DEFS: &[(&str, fn(&str, &mut usize))]"

def attributes : String := "#![allow(dead_code, unused_variables)]"

/-- The tables that are read back. -/
def writeTables (lexer : Lexer) : String :=
  moduleOpening ++ "\n  " ++ attributes ++ "\n\n" ++
  "  " ++ entryDeclaration ++ " = " ++ toString lexer.table.entry ++ ";\n\n" ++
  listItem acceptingDeclaration (lexer.table.accepting.map writeAccepting) ++ "\n" ++
  listItem transitionsDeclaration (lexer.table.rows.toList.map writeEdges) ++ "\n" ++
  listItem ignoreDeclaration (lexer.ignored.keys.map quoteString) ++ "\n" ++
  listItem keywordsDeclaration (lexer.keywords.entries.map writeKeyword)

/-- The constructor of the template's lexer. -/
def writeConstructor (entry : Nat) : String :=
  "impl<'a> Lexer<'a> \x7b\n" ++
  "  pub fn new(content: &'a str) -> Self \x7b\n" ++
  "    Lexer::with_entry(content, " ++ toString entry ++ ")\n" ++
  "  \x7d\n" ++
  "\x7d\n"

/-- The generated source of a lexer and its user code behind `template`. -/
def write (lexer : Lexer) (userCode : Dictionary) (template : String) : String :=
  template ++ "\n" ++ header ++ "\n\n" ++ writeTables lexer ++ "\n" ++
  listItem userCodeDeclaration (userCode.entries.map writeUserCode) ++
  "\x7d\n\n" ++ writeConstructor lexer.table.entry

end LexerGen.Source
