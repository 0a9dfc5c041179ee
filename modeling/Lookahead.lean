import Lookahead.Analysis
import Lookahead.Digest.Md5
import Lookahead.Expression.Evaluation
import Lookahead.Expression.Grammar
import Lookahead.FixedPoint
import Lookahead.Grammar.Basic
import Lookahead.Grammar.Builder
import Lookahead.Grammar.Fingerprint
import Lookahead.Grammar.Render
import Lookahead.IndexSet
import Lookahead.Layout.Columns
import Lookahead.Lexis.Automaton
import Lookahead.Lexis.Glyph
import Lookahead.Lexis.Grouping
import Lookahead.Lexis.Lexer
import Lookahead.Lexis.Matcher
import Lookahead.Lexis.Munch
import Lookahead.Lexis.Number
import Lookahead.Lexis.Positions
import Lookahead.Lexis.Quotation
import Lookahead.Lexis.Regex
import Lookahead.Lexis.RegexReader
import Lookahead.Lexis.Scanner
import Lookahead.Main
import Lookahead.Matrix
import Lookahead.Numeral.Binary64
import Lookahead.Numeral.Integer
import Lookahead.Numeral.Real
import Lookahead.Numeral.Separator
import Lookahead.Numeral.Shortest
import Lookahead.Parser.Basic
import Lookahead.Parser.FromText
import Lookahead.Parser.Slots
import Lookahead.Parser.SyntaxError
import Lookahead.Proofs.Analysis.Exactness
import Lookahead.Proofs.Analysis.First
import Lookahead.Proofs.Analysis.Follow
import Lookahead.Proofs.Analysis.LeftCorner
import Lookahead.Proofs.Analysis.Nullable
import Lookahead.Proofs.Analysis.Passes
import Lookahead.Proofs.Analysis.Sets
import Lookahead.Proofs.Builder
import Lookahead.Proofs.Builder.Attempts
import Lookahead.Proofs.Builder.Closing
import Lookahead.Proofs.Builder.SymbolTable
import Lookahead.Proofs.Derivation
import Lookahead.Proofs.Expression.Evaluation
import Lookahead.Proofs.FixedPoint
import Lookahead.Proofs.Grammar.Description
import Lookahead.Proofs.Grammar.Lookaheads
import Lookahead.Proofs.Lexis.Crash
import Lookahead.Proofs.Lexis.Literal
import Lookahead.Proofs.Lexis.Partition
import Lookahead.Proofs.Lexis.Resynchronisation
import Lookahead.Proofs.Matrix
import Lookahead.Proofs.Matrix.PlainMap
import Lookahead.Proofs.Parser.Action
import Lookahead.Proofs.Parser.Consumption
import Lookahead.Proofs.Parser.Correctness
import Lookahead.Proofs.Parser.Discipline
import Lookahead.Proofs.Parser.Engine
import Lookahead.Proofs.Parser.Expectation
import Lookahead.Proofs.Parser.Extent
import Lookahead.Proofs.Parser.Interruption
import Lookahead.Proofs.Parser.Prefix
import Lookahead.Proofs.Parser.Progress
import Lookahead.Proofs.Parser.Run
import Lookahead.Proofs.Parser.Slots
import Lookahead.Proofs.Parser.Termination
import Lookahead.Proofs.Sentence
import Lookahead.Proofs.Session.FileReader
import Lookahead.Proofs.Session.InitFile
import Lookahead.Proofs.Source
import Lookahead.Proofs.Table.Cache
import Lookahead.Proofs.Table.Conflicts
import Lookahead.Proofs.Table.Contents
import Lookahead.Proofs.Table.Exactness
import Lookahead.Proofs.Table.Reduced
import Lookahead.Proofs.Table.Row
import Lookahead.Proofs.Table.Verdict
import Lookahead.Proofs.Tree.Forest
import Lookahead.Proofs.Tree.Span
import Lookahead.Proofs.Tree.Walk
import Lookahead.Session.Basic
import Lookahead.Session.CommandLine
import Lookahead.Session.Directory
import Lookahead.Session.FileReader
import Lookahead.Session.InitFile
import Lookahead.Session.Key
import Lookahead.Session.LineEditor
import Lookahead.Session.Options
import Lookahead.Sorting
import Lookahead.Source
import Lookahead.Span
import Lookahead.Table.Basic
import Lookahead.Table.Cache
import Lookahead.Table.Render
import Lookahead.Text
import Lookahead.Text.Blank
import Lookahead.Text.Digit
import Lookahead.Text.Letter
import Lookahead.Text.Markup
import Lookahead.Text.Numeric
import Lookahead.Text.Printable
import Lookahead.Text.Quoted
import Lookahead.Text.Ranges
import Lookahead.Text.Utf8
import Lookahead.Token
import Lookahead.Token.Conversion
import Lookahead.Tree.Basic
import Lookahead.Tree.Render
import Lookahead.Tree.Walk
