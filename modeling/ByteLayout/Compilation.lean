import ByteLayout.Diagnostic.Report

/-!
# From text to message

The stages one after the other. `compile` brings a text to an environment, `generateFromText` to a
message; `roundTrip` writes the program of a text and reads it again. The records of a stage that
fails are those up to its failure.
-/

namespace ByteLayout

/-- The tokens of a text and the program that they make. -/
def readProgram (source : Text) (limit : Int := defaultSourceLimit) :
    Except StageError (List Token × Program) :=
  match parseSource source limit with
  | .ok result => .ok result
  | .error (.lexing e) => .error (.lexing e)
  | .error (.parsing e) => .error (.parsing e)

/-- The record of a program that was read. -/
def readingLog (tokens : List Token) (p : Program) : List LogEvent :=
  [.parsed p.statements.length tokens.length]

/-- The records of an evaluation from the beginning. -/
def evaluationLog (p : Program) : List LogEvent :=
  Evaluator.log {} p.statements

/-- The environment of a text, and the records up to it. -/
def compile (source : Text) (limit : Int := defaultSourceLimit) :
    Except StageError Environment × List LogEvent :=
  match readProgram source limit with
  | .error e => (.error e, [])
  | .ok (tokens, p) =>
    ((evaluate p).mapError .evaluation, readingLog tokens p ++ evaluationLog p)

/-- The message of a text, whose records go to the session. -/
def generateFromText {σ : Type} (random : RandomSource σ) (appendTerminator : Bool)
    (source : Text) (s : Session σ) : Except StageError (List UInt8) × Session σ :=
  let (env, log) := compile source
  let s := { s with log := s.log ++ log }
  match env with
  | .error e => (.error e, s)
  | .ok env =>
    let (message, s) := generate random appendTerminator env s
    (message.mapError .generation, s)

/-- What becomes of a text that is read, written and read again. -/
structure RoundTrip where
  /-- The program as it was written. -/
  written : Text
  /-- Whether the second reading gives the program of the first. -/
  same : Bool
  /-- The program of the second reading as it is written. -/
  again : Text
  deriving DecidableEq, Repr

/-- Reads a text, writes its program and reads that again. -/
def roundTrip (source : Text) : Except StageError RoundTrip := do
  let (_, p) ← readProgram source
  let written ← p.write.mapError .writing
  let (_, q) ← readProgram written
  let again ← q.write.mapError .writing
  return { written, same := p = q, again }

end ByteLayout
