import CloneScout.Clone.Group
import CloneScout.Clone.Report
import CloneScout.Clone.Unit
import CloneScout.Diagnostic.Basic
import CloneScout.Diagnostic.Message
import CloneScout.Diagnostic.Render
import CloneScout.Digest.Sha1
import CloneScout.Disk.Basic
import CloneScout.Disk.Path
import CloneScout.Disk.Scan
import CloneScout.Flow.Builder
import CloneScout.Flow.Graph
import CloneScout.Grammar.Expr
import CloneScout.Grammar.Parse
import CloneScout.Grammar.Pattern
import CloneScout.Grammar.Rules
import CloneScout.Grammar.State
import CloneScout.Grammar.Stmt
import CloneScout.Grammar.Strings
import CloneScout.Grammar.Target
import CloneScout.Main
import CloneScout.Normal.Basic
import CloneScout.Number.Binary64
import CloneScout.Number.Limbs
import CloneScout.Number.Literal
import CloneScout.Number.Radix
import CloneScout.Number.Shortest
import CloneScout.Number.Word
import CloneScout.Run.Basic
import CloneScout.Run.Load
import CloneScout.Run.Options
import CloneScout.Settings
import CloneScout.Source.Basic
import CloneScout.Source.Width
import CloneScout.Text.Basic
import CloneScout.Text.JsonString
import CloneScout.Text.Printable
import CloneScout.Text.Quoted
import CloneScout.Text.Rope
import CloneScout.Text.Utf8
import CloneScout.Token.Basic
import CloneScout.Token.Cursor
import CloneScout.Token.Lexer
import CloneScout.Token.Number
import CloneScout.Token.StringLiteral
import CloneScout.Token.Template
import CloneScout.Toml.Document
import CloneScout.Toml.Value
import CloneScout.Tree.Basic
import CloneScout.Tree.Dump
import CloneScout.Tree.Function
import CloneScout.Tree.Walk
import CloneScout.Proofs.Tree.Every
import CloneScout.Proofs.Tree.Lawful
import CloneScout.Proofs.Tree.Outline
import CloneScout.Proofs.Normal.Outline
import CloneScout.Proofs.Clone.Layout
import CloneScout.Proofs.Flow.Behaviour
import CloneScout.Proofs.Flow.Paths
import CloneScout.Proofs.Normal.Numbers
import CloneScout.Proofs.Number.Numeral
import CloneScout.Proofs.Text.Quoted
import CloneScout.Proofs.Tree.Document
import CloneScout.Proofs.Tree.Readable
import CloneScout.Proofs.Tree.Faithful
import CloneScout.Proofs.Text.Removal
import CloneScout.Proofs.Tree.Stable
import CloneScout.Proofs.Normal.Lawful
import CloneScout.Proofs.Normal.Faithful
import CloneScout.Proofs.Normal.Again
import CloneScout.Proofs.Grammar.Levels
import CloneScout.Proofs.Grammar.Operands
import CloneScout.Proofs.Grammar.Formula
import CloneScout.Proofs.Token.Literal
import CloneScout.Proofs.Token.Phrase
import CloneScout.Proofs.Grammar.Printing
import CloneScout.Proofs.Token.Lines
import CloneScout.Proofs.Grammar.Layout
import CloneScout.Proofs.Flow.Exit
import CloneScout.Proofs.Grammar.Blocks
import CloneScout.Proofs.Tree.Positional
import CloneScout.Proofs.Flow.Text
import CloneScout.Proofs.Flow.Weights
import CloneScout.Proofs.Flow.Changes
import CloneScout.Proofs.Tree.Variant
import CloneScout.Proofs.Flow.Variant
import CloneScout.Proofs.Clone.Variant
import CloneScout.Proofs.Normal.Meaning
import CloneScout.Proofs.Normal.Origin
import CloneScout.Proofs.Normal.Erasure
import CloneScout.Proofs.Run.Pool
import CloneScout.Proofs.Text.Order
import CloneScout.Proofs.Clone.Groups
import CloneScout.Proofs.Clone.Report
import CloneScout.Proofs.Json.Reader
import CloneScout.Proofs.Json.Written
import CloneScout.Proofs.Clone.Json
import CloneScout.Proofs.Flow.Settled
import CloneScout.Proofs.Flow.Raise
import CloneScout.Proofs.Clone.Extract
import CloneScout.Proofs.Token.Moves
import CloneScout.Proofs.Token.Coverage
import CloneScout.Proofs.Token.Fields
import CloneScout.Proofs.Grammar.Fields
import CloneScout.Proofs.Grammar.LineNumbers
import CloneScout.Proofs.Grammar.Halts
import CloneScout.Proofs.Grammar.Halts.Expr
import CloneScout.Proofs.Grammar.Halts.Stmt
import CloneScout.Proofs.Grammar.Halts.Parse
import CloneScout.Proofs.Flow.Live
import CloneScout.Proofs.Grammar.Literals
import CloneScout.Proofs.Token.Formatted
import CloneScout.Proofs.Grammar.Formatted
import CloneScout.Proofs.Text.Split
import CloneScout.Proofs.Toml.Written
import CloneScout.Proofs.Toml.Document
import CloneScout.Proofs.Tree.Ranges
import CloneScout.Proofs.Token.Order
import CloneScout.Proofs.Token.Indents
import CloneScout.Proofs.Grammar.Ranges
import CloneScout.Proofs.Grammar.Ranges.Expr
import CloneScout.Proofs.Grammar.Ranges.Stmt
import CloneScout.Proofs.Grammar.Ranges.Parse
import CloneScout.Proofs.Normal.Sugar
import CloneScout.Proofs.Normal.Swaps
import CloneScout.Proofs.Token.Extension
import CloneScout.Proofs.Token.Comments
import CloneScout.Proofs.Flow.Slots
import CloneScout.Proofs.Flow.Jumps
import CloneScout.Proofs.Text.Returns
import CloneScout.Proofs.Token.Ledger
import CloneScout.Proofs.Token.Brackets
import CloneScout.Proofs.Token.Balance
import CloneScout.Proofs.Token.LineEnds
import CloneScout.Proofs.Token.Enclosed
import CloneScout.Proofs.Token.Returns
import CloneScout.Proofs.Token.Clauses
import CloneScout.Proofs.Grammar.Inline
import CloneScout.Proofs.Grammar.Inline.Rules
import CloneScout.Proofs.Grammar.Clauses
import CloneScout.Proofs.Grammar.Clauses.Stmt
import CloneScout.Proofs.Grammar.Clauses.Compound
import CloneScout.Proofs.Grammar.Clauses.Parse
import CloneScout.Proofs.Grammar.Moves
import CloneScout.Proofs.Grammar.Moves.Rules
import CloneScout.Proofs.Grammar.ErrorCap
import CloneScout.Proofs.Token.Validity
import CloneScout.Proofs.Token.Numeral
import CloneScout.Proofs.Token.Numeral.Scan
import CloneScout.Proofs.Token.Numeral.Longest
import CloneScout.Proofs.Token.Numeral.Kinds
import CloneScout.Proofs.Number.Limbs
import CloneScout.Proofs.Grammar.Integer
import CloneScout.Proofs.Digest.Standard
import CloneScout.Proofs.Digest.Streaming
