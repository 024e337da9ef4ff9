import ByteLayout.Evaluator

/-!
# Log records

What the stages tell while they work. A record has a level, the channel it is written to and a
message; `LogEvent` names the occasions, and all wording is here.
-/

namespace ByteLayout

/-- How much a record matters. -/
inductive LogLevel where
  /-- Of use for finding faults. -/
  | debug
  /-- Progress. -/
  | info
  /-- Something unexpected. -/
  | warning
  deriving DecidableEq, Repr

/-- The name of a level. -/
def LogLevel.name : LogLevel → Text
  | debug => "DEBUG"
  | info => "INFO"
  | warning => "WARNING"

/-- An occasion for a record. -/
inductive LogEvent where
  /-- A program was read. -/
  | parsed (statements tokens : Nat)
  /-- A statement was taken. -/
  | stepped (old : Stage) (statement : Statement) (new : Stage)
  /-- The least number of bytes is more than the greatest. -/
  | boundsCrossed (g : Generator)
  /-- The output is full before the last field of a group. -/
  | outputFull (group : Text)
  /-- A field was emitted. -/
  | emitted (bytes : Nat) (name : Option Text)
  /-- A file was read. -/
  | readFile (characters : Nat) (path : Text)
  /-- A message was generated. -/
  | generated (bytes : Nat)
  deriving DecidableEq, Repr

namespace LogEvent

/-- How much an occasion matters. -/
def level : LogEvent → LogLevel
  | parsed .. | stepped .. | outputFull _ | emitted .. => .debug
  | readFile .. | generated _ => .info
  | boundsCrossed _ => .warning

/-- The channel of an occasion. -/
def channel : LogEvent → Text
  | parsed .. => "bajzel.syntax.parser.core"
  | stepped .. => "bajzel.evaluator.state"
  | boundsCrossed _ | outputFull _ | emitted .. => "bajzel.generator.core"
  | readFile .. | generated _ => "bajzel.cli"

/-- How a message calls a field. -/
def fieldName (name : Option Text) : Text :=
  (name.filter (· ≠ ("" : Text))).getD "<anonymous>"

/-- What happened. -/
def message : LogEvent → Text
  | parsed statements tokens =>
    "Parsed " ++ Text.decimal statements ++ " statements from " ++ Text.decimal tokens ++ " tokens"
  | stepped old statement new =>
    old.name ++ ": " ++ statement.inspect ++ " -> " ++ new.name
  | boundsCrossed g =>
    "OUT_MIN (" ++ Text.decimal g.outMin ++ ") exceeds OUT_MAX (" ++ Text.decimal g.outMax ++
      ") for '" ++ g.group ++ "'; output is capped at OUT_MAX"
  | outputFull group => "Output full, skipping remaining fields of '" ++ group ++ "'"
  | emitted bytes name =>
    "Emitted " ++ Text.decimal bytes ++ " bytes for field " ++ fieldName name
  | readFile characters path =>
    "Read " ++ Text.decimal characters ++ " characters from " ++ path
  | generated bytes => "Generated " ++ Text.decimal bytes ++ " bytes"

/-- A record on one line: level, channel and message. -/
def record (e : LogEvent) : Text :=
  e.level.name ++ " " ++ e.channel ++ ": " ++ e.message

end LogEvent

/-- The records of an evaluation: the statements that are taken before the first refusal. -/
def Evaluator.log (e : Evaluator) (ss : List Statement) : List LogEvent :=
  (e.transitions ss).map fun (old, s, new) => .stepped old s new

end ByteLayout
