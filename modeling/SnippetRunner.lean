import SnippetRunner.Text.Case
import SnippetRunner.Text.Class
import SnippetRunner.Text.Quoted
import SnippetRunner.Text.Utf8
import SnippetRunner.Decimal.Layout
import SnippetRunner.Decimal.Reading
import SnippetRunner.Scan.Query
import SnippetRunner.Token.Lexer
import SnippetRunner.Expr.Parser
import SnippetRunner.Declaration.Parser
import SnippetRunner.Expr.Eval
import SnippetRunner.Statement.Fragment
import SnippetRunner.Statement.Reading
import SnippetRunner.Run
import SnippetRunner.Program.Interpret
import SnippetRunner.Screen
import SnippetRunner.Toolchain.Balance
import SnippetRunner.Toolchain.Messages
import SnippetRunner.Runner
import SnippetRunner.Queue
import SnippetRunner.Outcome.Json
import SnippetRunner.Settings.Reading
import SnippetRunner.CommandLine.Response
import SnippetRunner.Main
import SnippetRunner.Proofs.Texts
import SnippetRunner.Proofs.Occurrences
import SnippetRunner.Proofs.Scanning
import SnippetRunner.Proofs.Splitting
import SnippetRunner.Proofs.Provenance
import SnippetRunner.Proofs.Nesting
import SnippetRunner.Proofs.Ending
import SnippetRunner.Proofs.Limits
import SnippetRunner.Proofs.Entry
import SnippetRunner.Proofs.Pieces
import SnippetRunner.Proofs.Places
import SnippetRunner.Proofs.Literals
import SnippetRunner.Proofs.Printing
import SnippetRunner.Proofs.Multiline
import SnippetRunner.Proofs.Rereading
import SnippetRunner.Proofs.Wrapping
import SnippetRunner.Proofs.WrappedLines
import SnippetRunner.Proofs.Origins
import SnippetRunner.Proofs.LineMap
import SnippetRunner.Proofs.Screening
import SnippetRunner.Proofs.LoopLines
import SnippetRunner.Proofs.Masking
import SnippetRunner.Proofs.Spacing
import SnippetRunner.Proofs.Indenting
import SnippetRunner.Proofs.WrappedStatements
import SnippetRunner.Proofs.PrintedLiterals
import SnippetRunner.Proofs.Hoisting
import SnippetRunner.Proofs.CodePieces
import SnippetRunner.Proofs.CodeWords
import SnippetRunner.Proofs.EntryType
import SnippetRunner.Proofs.Blocks
import SnippetRunner.Proofs.Classes
import SnippetRunner.Proofs.Derivations
import SnippetRunner.Proofs.Spelling
import SnippetRunner.Proofs.RoundTrip
import SnippetRunner.Proofs.Soundness
import SnippetRunner.Proofs.Depth
import SnippetRunner.Proofs.Slices
import SnippetRunner.Proofs.Nodes
import SnippetRunner.Proofs.LeadingImports
import SnippetRunner.Proofs.OwnMain
import SnippetRunner.Proofs.Tiling
import SnippetRunner.Proofs.Balance
import SnippetRunner.Proofs.Respacing
import SnippetRunner.Proofs.Bracketing
import SnippetRunner.Proofs.MaskedPlaces
import SnippetRunner.Proofs.ClosingPlaces
import SnippetRunner.Proofs.TopLevelCuts
import SnippetRunner.Proofs.WordSequences
import SnippetRunner.Proofs.MainBody
import SnippetRunner.Proofs.Reports
import SnippetRunner.Proofs.Substance
import SnippetRunner.Proofs.Squeezing
import SnippetRunner.Proofs.CommentSpace
import SnippetRunner.Proofs.LineBreaks
import SnippetRunner.Proofs.Operators
import SnippetRunner.Proofs.OperatorBreaks
import SnippetRunner.Proofs.Launching
import SnippetRunner.Proofs.CompilerOutput
import SnippetRunner.Proofs.CompilerBlocks
import SnippetRunner.Proofs.CompilerLines
import SnippetRunner.Proofs.Silence
import SnippetRunner.Proofs.Histories
import SnippetRunner.Proofs.Tickets
import SnippetRunner.Proofs.Arithmetic
import SnippetRunner.Proofs.Numerals
import SnippetRunner.Proofs.StringSpellings
import SnippetRunner.Proofs.Margins
import SnippetRunner.Proofs.TextBlocks
import SnippetRunner.Proofs.Actions
import SnippetRunner.Proofs.Kinds
import SnippetRunner.Proofs.Increments
import SnippetRunner.Proofs.Headers
import SnippetRunner.Proofs.CountedLoops
import SnippetRunner.Proofs.ItemLoops
import SnippetRunner.Proofs.Entries
import SnippetRunner.Proofs.Effects
import SnippetRunner.Proofs.Recutting
