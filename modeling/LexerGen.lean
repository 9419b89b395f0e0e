import LexerGen.CharRange
import LexerGen.CharSet
import LexerGen.Command.Directory
import LexerGen.Command.FileError
import LexerGen.Command.Options
import LexerGen.Command.Path
import LexerGen.Command.Run
import LexerGen.Command.Template
import LexerGen.Compiled
import LexerGen.Diagnostic
import LexerGen.Edge
import LexerGen.Exploration
import LexerGen.Graph
import LexerGen.Lexer.Basic
import LexerGen.Lexer.Token
import LexerGen.Limits
import LexerGen.Main
import LexerGen.Nfa.Compile
import LexerGen.Nfa.Fragment
import LexerGen.Nfa.Subset
import LexerGen.Nfa.Thompson
import LexerGen.Proofs.Blocks
import LexerGen.Proofs.CanonicalSet
import LexerGen.Proofs.CharSet
import LexerGen.Proofs.Command.TokenLines
import LexerGen.Proofs.Edges
import LexerGen.Proofs.Exploration
import LexerGen.Proofs.ExploredTable
import LexerGen.Proofs.Lexer.Failure
import LexerGen.Proofs.Lexer.Munch
import LexerGen.Proofs.Lexer.PatternPlace
import LexerGen.Proofs.Lexer.Patterns
import LexerGen.Proofs.Lexer.Reference
import LexerGen.Proofs.Lexer.Retagging
import LexerGen.Proofs.Lexer.Scan
import LexerGen.Proofs.Lexer.Segments
import LexerGen.Proofs.Lexer.TokenTags
import LexerGen.Proofs.Minimise
import LexerGen.Proofs.Nfa.Alike
import LexerGen.Proofs.Nfa.Between
import LexerGen.Proofs.Nfa.Built
import LexerGen.Proofs.Nfa.Canonical
import LexerGen.Proofs.Nfa.Determinise
import LexerGen.Proofs.Nfa.Growth
import LexerGen.Proofs.Nfa.Path
import LexerGen.Proofs.Nfa.Subsets
import LexerGen.Proofs.Nfa.Thompson
import LexerGen.Proofs.Nfa.Union
import LexerGen.Proofs.Nfa.Useful
import LexerGen.Proofs.Reachability
import LexerGen.Proofs.Regex.Derivation
import LexerGen.Proofs.Regex.Grammar
import LexerGen.Proofs.Regex.Height
import LexerGen.Proofs.Regex.Language
import LexerGen.Proofs.Regex.Places
import LexerGen.Proofs.Regex.Proper
import LexerGen.Proofs.Regex.Sets
import LexerGen.Proofs.Rules.Composition
import LexerGen.Proofs.Rules.Derivation
import LexerGen.Proofs.Rules.Faults
import LexerGen.Proofs.Rules.FirstFault
import LexerGen.Proofs.Rules.Grammar
import LexerGen.Proofs.Rules.Reading
import LexerGen.Proofs.Rules.TagNames
import LexerGen.Proofs.Rules.Tags
import LexerGen.Proofs.SetOperations
import LexerGen.Proofs.Source.Completion
import LexerGen.Proofs.Source.Delimiting
import LexerGen.Proofs.Source.Lists
import LexerGen.Proofs.Source.Literals
import LexerGen.Proofs.Source.Opening
import LexerGen.Proofs.Source.Parsing
import LexerGen.Proofs.Source.RoundTrip
import LexerGen.Proofs.Source.Tables
import LexerGen.Proofs.Source.Truncation
import LexerGen.Proofs.Source.UserCode
import LexerGen.Proofs.StringMap
import LexerGen.Proofs.TableChecks
import LexerGen.Proofs.TableParts
import LexerGen.Proofs.TableRun
import LexerGen.Proofs.Text.Reading
import LexerGen.Proofs.Trim
import LexerGen.Regex.Basic
import LexerGen.Regex.Class
import LexerGen.Regex.Escape
import LexerGen.Regex.Parser
import LexerGen.Regex.Quantifier
import LexerGen.Rules.Declaration
import LexerGen.Rules.Error
import LexerGen.Rules.Reader
import LexerGen.Rules.Stream
import LexerGen.Source.Reader
import LexerGen.Source.Writer
import LexerGen.StringMap
import LexerGen.Table.Basic
import LexerGen.Table.Checked
import LexerGen.Table.Minimise
import LexerGen.Table.Trim
import LexerGen.Text.Alphanumeric
import LexerGen.Text.Blank
import LexerGen.Text.CodePoint
import LexerGen.Text.CombiningMark
import LexerGen.Text.Cursor
import LexerGen.Text.Digit
import LexerGen.Text.Literal
import LexerGen.Text.Location
import LexerGen.Text.Quoted
import LexerGen.Text.Reader
import LexerGen.Text.Scalar
import LexerGen.Text.Span
import LexerGen.Text.Unprintable
import LexerGen.Text.Utf8
