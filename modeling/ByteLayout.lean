import ByteLayout.CommandLine.Arguments
import ByteLayout.CommandLine.Input
import ByteLayout.CommandLine.Run
import ByteLayout.Compilation
import ByteLayout.Diagnostic
import ByteLayout.Diagnostic.Problem
import ByteLayout.Diagnostic.Report
import ByteLayout.Diagnostic.Style
import ByteLayout.Edit
import ByteLayout.Environment
import ByteLayout.Evaluator
import ByteLayout.Field.Attribute
import ByteLayout.Field.Definition
import ByteLayout.Field.Group
import ByteLayout.Field.Number
import ByteLayout.Generation
import ByteLayout.Generator
import ByteLayout.Log
import ByteLayout.Main
import ByteLayout.OutputBuffer
import ByteLayout.Program.Argument
import ByteLayout.Program.Form
import ByteLayout.Program.Reader
import ByteLayout.Program.Statement
import ByteLayout.Program.Writer
import ByteLayout.Proofs.Acceptance
import ByteLayout.Proofs.Concatenation
import ByteLayout.Proofs.Consistency
import ByteLayout.Proofs.Cutting
import ByteLayout.Proofs.Decomposition
import ByteLayout.Proofs.Emission
import ByteLayout.Proofs.EmissionLaw
import ByteLayout.Proofs.Evaluation
import ByteLayout.Proofs.Expressibility
import ByteLayout.Proofs.Gathering
import ByteLayout.Proofs.Generation
import ByteLayout.Proofs.Grammar
import ByteLayout.Proofs.GroupEvaluation
import ByteLayout.Proofs.InPlace
import ByteLayout.Proofs.LexemeText
import ByteLayout.Proofs.Lexing
import ByteLayout.Proofs.Lists
import ByteLayout.Proofs.Numerals
import ByteLayout.Proofs.Outline
import ByteLayout.Proofs.OutlineGrowth
import ByteLayout.Proofs.Reading
import ByteLayout.Proofs.Recognition
import ByteLayout.Proofs.Results
import ByteLayout.Proofs.RoundTrip
import ByteLayout.Proofs.Sections
import ByteLayout.Proofs.Soundness
import ByteLayout.Proofs.Spacing
import ByteLayout.Proofs.Spelling
import ByteLayout.Proofs.Stepping
import ByteLayout.Proofs.Tiling
import ByteLayout.Proofs.Words
import ByteLayout.Proofs.Writing
import ByteLayout.Random
import ByteLayout.Sequence
import ByteLayout.Span
import ByteLayout.Text.Case
import ByteLayout.Text.Cursor
import ByteLayout.Text.Json
import ByteLayout.Text.Line
import ByteLayout.Text.Numeral
import ByteLayout.Text.Printable
import ByteLayout.Text.Quoted
import ByteLayout.Text.ScriptDigit
import ByteLayout.Text.Utf8
import ByteLayout.Text.WhiteSpace
import ByteLayout.Token
import ByteLayout.Token.Lexeme
import ByteLayout.Token.Lexer
import ByteLayout.Token.Stream
import ByteLayout.Proofs.Deferral
import ByteLayout.Proofs.Independence
import ByteLayout.Proofs.Coherence
import ByteLayout.Proofs.Decoding
import ByteLayout.Proofs.Layout
import ByteLayout.Proofs.NumberLimit
import ByteLayout.Proofs.Faithfulness
import ByteLayout.Proofs.Variants
import ByteLayout.Proofs.VariantTokens
import ByteLayout.Proofs.Places
import ByteLayout.Proofs.LineEnds
import ByteLayout.Proofs.Undrawn
import ByteLayout.Proofs.Utf8
import ByteLayout.Proofs.Command
import ByteLayout.Proofs.LongestMatch
import ByteLayout.Proofs.Lines
import ByteLayout.Proofs.Misplacement
import ByteLayout.Proofs.Arguments
import ByteLayout.Proofs.Attributes
import ByteLayout.Proofs.Parameters
import ByteLayout.Proofs.Refusals
import ByteLayout.Proofs.Truncation
import ByteLayout.Proofs.Reservation
import ByteLayout.Proofs.ReadBack
import ByteLayout.Proofs.Remainder
import ByteLayout.Proofs.SingleLine
import ByteLayout.Proofs.Messages
import ByteLayout.Proofs.Buffering
import ByteLayout.Proofs.Dump
import ByteLayout.Proofs.Quoting
import ByteLayout.Proofs.JsonGrammar
import ByteLayout.Proofs.JsonDiagnostics
import ByteLayout.Proofs.Walks
import ByteLayout.Proofs.Rules
