import ByteLayout.CommandLine.Arguments
import ByteLayout.CommandLine.Input
import ByteLayout.Compilation
import ByteLayout.Diagnostic.Style

/-!
# Runs of the command

What a run writes for the content of its input. A failure is told on the standard error and ends the
run with the code 1; records go there too, all of them in a verbose run and only the warnings
otherwise.
-/

namespace ByteLayout.CommandLine

/-- What a run writes, and the code that it ends with. -/
structure Outcome where
  /-- The code: 0 for success. -/
  code : Nat
  /-- The standard output. -/
  output : List UInt8 := []
  /-- The lines of the standard error. -/
  errors : List Text := []
  deriving DecidableEq, Repr

/-- The lines that a run shows of its records. -/
def shownRecords (verbose : Bool) (log : List LogEvent) : List Text :=
  if verbose then log.map LogEvent.record
  else (log.filter fun e => e.level = .warning).map LogEvent.message

/-- The lines that a run shows of a failure. -/
def shownFailure (verbose : Bool) (e : StageError) : List Text :=
  match e.report? with
  | none => [e.message]
  | some report =>
    ("[-] Error: " ++ report.message) ::
      (if verbose then (report.diagnostic.map fun d => d.format).toList else [])

/-- The outcome of a run whose records and whose output are known. -/
def Outcome.ofResult (verbose : Bool) (log : List LogEvent)
    (output : Except StageError (List UInt8)) : Outcome :=
  match output with
  | .ok bytes => { code := 0, output := bytes, errors := shownRecords verbose log }
  | .error e =>
    { code := 1, errors := shownRecords verbose log ++ shownFailure verbose e }

/-- The tokens of a text, one on a line with a comma after it. -/
def tokenDump (tokens : List Token) : Text :=
  Text.join (tokens.map fun t => t.inspect ++ ",\n")

/-- The output of a run for the text of its input, and the records of the stages. -/
def outputOf {σ : Type} (random : RandomSource σ) (state : σ) (o : Options) (source : Text) :
    Except StageError (List UInt8) × List LogEvent :=
  match o.dump with
  | .tokens =>
    match lex source with
    | .error e => (.error (.lexing e), [])
    | .ok tokens => ((Text.utf8 (tokenDump tokens)).mapError .output, [])
  | .statements =>
    match readProgram source with
    | .error e => (.error e, [])
    | .ok (tokens, p) =>
      ((p.write.mapError .writing).bind fun text => (Text.utf8 text).mapError .output,
        readingLog tokens p)
  | .bytes =>
    match generateFromText random o.appendTerminator source { state } with
    | (.error e, s) => (.error e, s.log)
    | (.ok message, s) => (.ok message, s.log ++ [.generated message.length])

/-- The outcome of a run for the content of its input. -/
def run {σ : Type} (random : RandomSource σ) (state : σ) (o : Options)
    (content : Except ReadError (List UInt8)) : Outcome :=
  match content.bind inputText with
  | .error e => { code := 1, errors := ["[-] Error: Could not read file: " ++ e.message] }
  | .ok source =>
    let (output, log) := outputOf random state o source
    Outcome.ofResult o.verbose
      (.readFile source.length (normalisePath o.input) :: log) output

/-- The characters that show a code point on the standard error: a surrogate by its escape. -/
def shownChars : CodePoint → List Char
  | .scalar c => [c]
  | c => (Text.escape c).filterMap CodePoint.scalar?

/-- The text of the standard error. -/
def Outcome.errorText (o : Outcome) : String :=
  String.ofList ((Text.join (o.errors.map (· ++ "\n"))).toList.flatMap shownChars)

end ByteLayout.CommandLine
