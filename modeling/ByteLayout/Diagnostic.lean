import ByteLayout.Span

/-!
# Diagnostics

What a failed stage tells its user: a code, a message and, where they are known, the place and the
circumstances. The codes are numbered by stage: from 1000 on for the text, from 2000 on for the
meaning of a program, from 3000 on for the generation of output.
-/

namespace ByteLayout

/-- The kinds of diagnostics. -/
inductive DiagnosticCode where
  /-- Statements in a wrong order, or names used twice or not at all. -/
  | syntaxError
  /-- No statement begins at a token. -/
  | unexpectedToken
  /-- The text is longer than the limit. -/
  | sourceTooLarge
  /-- A name is no number format. -/
  | conversionFailed
  /-- The statements end too early. -/
  | programNotFinished
  /-- An attribute that the field does not have, or a value that it does not take. -/
  | invalidAttribute
  /-- A parameter that the generator does not have, or a value that it does not take. -/
  | invalidParameter
  /-- An argument of the wrong shape. -/
  | expressionInvalid
  /-- A kind of field that cannot be built. -/
  | featureNotImplemented
  /-- Nothing to generate from. -/
  | notConstructedProperly
  deriving DecidableEq, Repr

namespace DiagnosticCode

/-- Every code, in the order of declaration. -/
def all : List DiagnosticCode :=
  [syntaxError, unexpectedToken, sourceTooLarge, conversionFailed, programNotFinished,
    invalidAttribute, invalidParameter, expressionInvalid, featureNotImplemented,
    notConstructedProperly]

/-- The name of a code. -/
def name : DiagnosticCode → Text
  | syntaxError => "SYNTAX_ERROR"
  | unexpectedToken => "UNEXPECTED_TOKEN"
  | sourceTooLarge => "SOURCE_TOO_LARGE"
  | conversionFailed => "CONVERSION_FAILED"
  | programNotFinished => "PROGRAM_NOT_FINISHED"
  | invalidAttribute => "INVALID_ATTRIBUTE"
  | invalidParameter => "INVALID_PARAMETER"
  | expressionInvalid => "EXPRESSION_INVALID"
  | featureNotImplemented => "FEATURE_NOT_IMPLEMENTED"
  | notConstructedProperly => "NOT_CONSTRUCTED_PROPERLY"

/-- The number of a code. -/
def number : DiagnosticCode → Nat
  | syntaxError => 1001
  | unexpectedToken => 1002
  | sourceTooLarge => 1003
  | conversionFailed => 2001
  | programNotFinished => 2002
  | invalidAttribute => 2003
  | invalidParameter => 2004
  | expressionInvalid => 2005
  | featureNotImplemented => 2006
  | notConstructedProperly => 3001

/-- The code of a name. -/
def ofName? (name : Text) : Option DiagnosticCode :=
  all.find? fun code => code.name = name

/-- No code is left out. -/
theorem mem_all (code : DiagnosticCode) : code ∈ all := by
  cases code <;> decide

end DiagnosticCode

/-- What a failed stage tells its user. -/
structure Diagnostic where
  /-- The kind of failure. -/
  code : DiagnosticCode
  /-- What is wrong, in one sentence. -/
  message : Text
  /-- Where in the text it is wrong. -/
  location : Option Location := none
  /-- How to mend it. -/
  hint : Option Text := none
  /-- The attribute or parameter that it is about. -/
  subject : Option Text := none
  /-- What was expected. -/
  expected : Option Text := none
  /-- What was there instead. -/
  received : Option Text := none
  /-- How bad it is; `error` unless said otherwise. -/
  severity : Text := "error"
  deriving DecidableEq, Repr

end ByteLayout
