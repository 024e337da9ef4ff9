import ByteLayout.Generation
import ByteLayout.Program.Reader
import ByteLayout.Program.Writer

/-!
# Reports

A failure as it is told to a user: its sort, a message and, unless the message is all there is, a
diagnostic. Refused names and refused tokens are kept beside it. Every cause for which a stage
refuses its input has a report. What a stage does not refuse but fails on has none: numbers too long
to be read or written, texts without bytes, environments and generators that no program makes.
-/

namespace ByteLayout

/-- A failure as it is told to a user. -/
structure Report where
  /-- The sort of the failure. -/
  kind : ProblemKind
  /-- What is wrong. -/
  message : Text
  /-- What is wrong, with its circumstances. -/
  diagnostic : Option Diagnostic := none
  /-- The name that is no number format. -/
  typeName : Text := ""
  /-- The token at which no form begins. -/
  token : Option Token := none
  /-- The token after it. -/
  next : Option Token := none
  deriving DecidableEq, Repr

namespace Report

/-- A report of a diagnostic. -/
def ofDiagnostic (kind : ProblemKind) (d : Diagnostic) : Report :=
  { kind, message := d.message, diagnostic := some d }

/-- The report of a cause. -/
def ofProblem (p : Problem) : Report :=
  { ofDiagnostic p.kind p.diagnostic with
    typeName := match p with
      | .unknownTypeName name => name
      | _ => "" }

/-- The report of tokens that are no program. -/
def ofParseError (e : ParseError) : Report :=
  { ofProblem e.problem with token := e.token, next := e.next }

/-- The report of a program that the language has no words for. -/
def ofWriteError? : WriteError → Option Report
  | .unwritable _ => none
  | e => some { kind := .serialization, message := e.message }

end Report

/-- Why a stage between text and message fails. -/
inductive StageError where
  /-- The text cannot be cut into tokens. -/
  | lexing (e : DigitLimit)
  /-- The text is too long, or its tokens are no program. -/
  | parsing (e : ParseError)
  /-- The statements have no environment. -/
  | evaluation (e : EnvironmentError)
  /-- The program has no text. -/
  | writing (e : WriteError)
  /-- The environment has no message. -/
  | generation (e : GenerationError)
  /-- A text that is to be written has no bytes. -/
  | output (e : Text.Unwritable)
  deriving DecidableEq, Repr

namespace StageError

/-- The report of a failure, if it has one. -/
def report? : StageError → Option Report
  | parsing e => some (.ofParseError e)
  | evaluation (.problem p) | generation (.problem p) => some (.ofProblem p)
  | writing e => Report.ofWriteError? e
  | lexing _ | evaluation (.unwritable _) | evaluation (.danglingGroup _)
  | generation (.capacity _) | generation (.emission _) | output _ => none

/-- What is wrong. -/
def message : StageError → Text
  | lexing e => e.message
  | parsing e => e.problem.message
  | evaluation e => e.message
  | writing e => e.message
  | generation (.problem p) => p.message
  | generation (.capacity e) => e.message
  | generation (.emission e) => e.message
  | output e => e.message

end StageError

end ByteLayout
