import FrontEnd.Binary64.Basic
import FrontEnd.Binary64.Shortest
import FrontEnd.Binary64.Text
import FrontEnd.CommandLine.Invocation
import FrontEnd.CommandLine.Outcome
import FrontEnd.CommandLine.Page
import FrontEnd.CommandLine.Words
import FrontEnd.Diagnostic
import FrontEnd.File.Reading
import FrontEnd.File.Tree
import FrontEnd.File.Utf8
import FrontEnd.Grammar.Expression
import FrontEnd.Grammar.Precedence
import FrontEnd.Grammar.Program
import FrontEnd.Grammar.Session
import FrontEnd.Grammar.SyntaxError
import FrontEnd.Json.Basic
import FrontEnd.Json.Writer
import FrontEnd.Main
import FrontEnd.Node.Basic
import FrontEnd.Node.View
import FrontEnd.Numeral
import FrontEnd.Proofs.Grouping
import FrontEnd.Proofs.Reading
import FrontEnd.Proofs.Yield
import FrontEnd.Scalar
import FrontEnd.Source.Basic
import FrontEnd.Source.Cursor
import FrontEnd.Source.Span
import FrontEnd.Text.Blank
import FrontEnd.Text.DecimalDigit
import FrontEnd.Text.Lines
import FrontEnd.Text.Printable
import FrontEnd.Text.Quoted
import FrontEnd.Token.Basic
import FrontEnd.Token.Kind
import FrontEnd.Token.LexicalError
import FrontEnd.Token.Scan
import FrontEnd.Token.Session
import FrontEnd.Token.Spelling
import FrontEnd.Proofs.Soundness
import FrontEnd.Proofs.ReadBack
import FrontEnd.Proofs.Automaton
import FrontEnd.Proofs.Lines
import FrontEnd.Proofs.Placement
import FrontEnd.Proofs.Coordinates
import FrontEnd.Proofs.Numerals
import FrontEnd.Proofs.Lexeme
import FrontEnd.Proofs.Scanning
import FrontEnd.Proofs.Layout
import FrontEnd.Proofs.Refusals
import FrontEnd.Proofs.Faults
import FrontEnd.Proofs.Boundaries
import FrontEnd.Proofs.Blocks
import FrontEnd.Proofs.Nesting
import FrontEnd.Proofs.ScanSessions
import FrontEnd.Proofs.ParseSessions
import FrontEnd.Proofs.Octets
import FrontEnd.Proofs.FileSources
import FrontEnd.Proofs.ExitStatus
import FrontEnd.Proofs.JsonGrammar
import FrontEnd.Proofs.JsonReader
import FrontEnd.Proofs.Rounding
import FrontEnd.Proofs.ShortestDigits
import FrontEnd.Proofs.NumberText
import FrontEnd.Proofs.JsonText
import FrontEnd.Proofs.Dumps
import FrontEnd.Proofs.FiniteRange
import FrontEnd.Proofs.ProgramDumps
import FrontEnd.Proofs.LineEnds
import FrontEnd.Proofs.OpenExpressions
import FrontEnd.Proofs.EndOfInput
import FrontEnd.Proofs.RunOutput
import FrontEnd.Proofs.Carets
import FrontEnd.Proofs.EndMark
import FrontEnd.Proofs.KeywordTables
import FrontEnd.Proofs.CutTexts
import FrontEnd.Proofs.Frames
import FrontEnd.Proofs.ReportLines
import FrontEnd.Proofs.StyledText
import FrontEnd.Proofs.Worth
import FrontEnd.Proofs.TreeEquality
import FrontEnd.Proofs.ViewEquality
import FrontEnd.Proofs.QuotedText
import FrontEnd.Proofs.Listings
