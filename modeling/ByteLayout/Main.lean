import ByteLayout.CommandLine.Run

/-!
# The command

`main` reads the file that its arguments name, runs the command on it and writes what comes of it.
The random source is a linear congruential one that begins with the seed, or with the time.
-/

namespace ByteLayout.CommandLine

/-- How the command is used. -/
def usage : String :=
  "usage: [-h] [--seed SEED] [--dump \x7bbytes,tokens,statements\x7d] [--append-term] [-v] input\n"

/-- The content of a file, or why there is none. -/
def readInput (path : String) : IO (Except ReadError (List UInt8)) := do
  try
    let content ← IO.FS.readBinFile path
    return .ok content.toList
  catch e =>
    match e with
    | .noFileOrDirectory .. => return .error (.notFound path)
    | .inappropriateType none _ _ => return .error (.isDirectory path)
    | .inappropriateType (some _) _ _ => return .error (.notDirectory path)
    | .invalidArgument _ 36 _ => return .error (.nameTooLong path)
    | .permissionDenied .. => return .error (.refused 13 "Permission denied" path)
    | _ => return .error (.refused 5 "Input/output error" path)

/-- Writes what comes of a run. -/
def Outcome.write (o : Outcome) : IO UInt32 := do
  let out ← IO.getStdout
  out.write (ByteArray.mk o.output.toArray)
  out.flush
  let err ← IO.getStderr
  err.putStr o.errorText
  return UInt32.ofNat o.code

/-- Runs the command. -/
def runCommand (arguments : List String) : IO UInt32 := do
  match Request.ofArguments arguments with
  | .help =>
    IO.print usage
    return 0
  | .invalid =>
    IO.eprint usage
    return 2
  | .run o =>
    let content ← readInput (normalisePath o.input)
    let seed ← match o.seed with
      | some seed => pure (seed.toNat % UInt64.size)
      | none => IO.monoNanosNow
    (run Script.source (.congruential seed) o content).write

end ByteLayout.CommandLine

/-- The entry of the program. -/
def main (arguments : List String) : IO UInt32 :=
  ByteLayout.CommandLine.runCommand arguments
