import ByteLayout.Diagnostic

/-!
# Problems

The causes for which a program is refused, with the names and numbers that each is about, and the
diagnostic that tells of each. All wording is here: the stages name causes only.

`Problem.kind` sorts the causes by the stage that meets them.
-/

namespace ByteLayout

/-- Why a program is refused. -/
inductive Problem where
  /-- No statement begins at a token. -/
  | unexpectedToken (token next : Text) (location : Option Location)
  /-- The text has more characters than the limit allows. -/
  | sourceTooLarge (size limit : Int)
  /-- The program does not begin with a group. -/
  | defineRequired
  /-- A second generator. -/
  | singleGenerate
  /-- A second group of the same name. -/
  | duplicateGroup (name : Text)
  /-- A second field of the same name in a group. -/
  | duplicateAlias (name group : Text)
  /-- No field of this name in the group. -/
  | fieldNotFound (name group : Text)
  /-- An attribute while no field is selected. -/
  | noCurrentField (attr : Text)
  /-- A statement that has no place here. -/
  | unexpectedStatement (statement stage : Text)
  /-- The statements end before the generator is complete. -/
  | programNotFinished (stage : Text)
  /-- A name that is no number format. -/
  | unknownTypeName (name : Text)
  /-- A type of which no field can be built. -/
  | unsupportedFieldType (kind : Text)
  /-- A literal of which no field can be built. -/
  | literalFieldNotImplemented (kind : Text)
  /-- An attribute of a field that has none. -/
  | attributesNotAllowed (kind : Text)
  /-- An attribute that this kind of field does not have. -/
  | unsupportedAttribute (attr kind : Text)
  /-- An attribute with arguments that it does not take. -/
  | invalidAttributeValue (attr usage problem : Text)
  /-- A bound outside the range of a number format. -/
  | valueOutOfFormat (attr : Text) (value : Int) (format : Text) (lower upper : Int)
  /-- A name that is no base for display. -/
  | unknownDisplayFormat (name : Text)
  /-- A parameter that the generator does not have. -/
  | unsupportedParameter (name : Text)
  /-- A parameter with a value that it does not take. -/
  | invalidParameterValue (name problem : Text)
  /-- A group in the place of a literal. -/
  | groupNotExpected (context : Text)
  /-- Another literal in the place of an integer. -/
  | integerExpected (context received : Text)
  /-- The generator names a group that is not there. -/
  | groupMissing (name : Text)
  /-- There is no generator. -/
  | generatorMissing
  deriving DecidableEq, Repr

/-- The sorts of failures. -/
inductive ProblemKind where
  /-- Not sorted. -/
  | general
  /-- A name could not be read as a number format. -/
  | conversion
  /-- The program ends too early. -/
  | notFinished
  /-- A statement, a field, an attribute or a parameter is not allowed. -/
  | grammar
  /-- The tokens are no program. -/
  | parse
  /-- An argument has the wrong shape. -/
  | expression
  /-- Nothing to generate from. -/
  | construction
  /-- A program cannot be written as a text. -/
  | serialization
  deriving DecidableEq, Repr

namespace ProblemKind

/-- A sort and all sorts above it, the most special one first. -/
def lineage : ProblemKind → List ProblemKind
  | general => [general]
  | parse => [parse, grammar, general]
  | kind => [kind, general]

end ProblemKind

namespace Problem

/-- The sort of a cause. -/
def kind : Problem → ProblemKind
  | unexpectedToken .. | sourceTooLarge .. => .parse
  | programNotFinished _ => .notFinished
  | unknownTypeName _ => .conversion
  | groupNotExpected _ | integerExpected .. => .expression
  | groupMissing _ | generatorMissing => .construction
  | _ => .grammar

/-- The code of a cause. -/
def code : Problem → DiagnosticCode
  | unexpectedToken .. => .unexpectedToken
  | sourceTooLarge .. => .sourceTooLarge
  | programNotFinished _ => .programNotFinished
  | unknownTypeName _ => .conversionFailed
  | literalFieldNotImplemented _ => .featureNotImplemented
  | attributesNotAllowed _ | unsupportedAttribute .. | invalidAttributeValue ..
  | valueOutOfFormat .. | unknownDisplayFormat _ => .invalidAttribute
  | unsupportedParameter _ | invalidParameterValue .. => .invalidParameter
  | groupNotExpected _ | integerExpected .. => .expressionInvalid
  | groupMissing _ | generatorMissing => .notConstructedProperly
  | _ => .syntaxError

/-- A range of numbers in brackets. -/
def interval (lower upper : Int) : Text :=
  "[" ++ Text.decimal lower ++ ", " ++ Text.decimal upper ++ "]"

/-- What is wrong, in one sentence. -/
def message : Problem → Text
  | unexpectedToken token next _ => "Unexpected token " ++ token ++ ", next: " ++ next
  | sourceTooLarge size limit =>
    "Source size (" ++ Text.decimalGrouped size ++ " characters) exceeds maximum (" ++
      Text.decimalGrouped limit ++ " characters)"
  | defineRequired => "at least one DEFINE section is required"
  | singleGenerate => "single GENERATE section allowed"
  | duplicateGroup name => "DEFINE section '" ++ name ++ "' already exists"
  | duplicateAlias name group => "Field '" ++ name ++ "' already defined in '" ++ group ++ "'"
  | fieldNotFound name group => "Field '" ++ name ++ "' not found in '" ++ group ++ "'"
  | noCurrentField attr => attr ++ ": no field selected for attribute update"
  | unexpectedStatement statement stage => statement ++ " is not allowed while " ++ stage
  | programNotFinished stage => "program not finished (stopped while " ++ stage ++ ")"
  | unknownTypeName name => "Unknown type name (" ++ name ++ ")"
  | unsupportedFieldType kind => "Unsupported variable field type (" ++ kind ++ ")"
  | literalFieldNotImplemented kind =>
    "constant " ++ kind ++ " literal fields are not implemented"
  | attributesNotAllowed kind => "'" ++ kind ++ "' fields do not have any attributes"
  | unsupportedAttribute attr kind => "unsupported " ++ kind ++ " attribute (" ++ attr ++ ")"
  | invalidAttributeValue _ usage problem => usage ++ ": " ++ problem
  | valueOutOfFormat attr value format lower upper =>
    attr ++ ": " ++ Text.decimal value ++ " does not fit " ++ format ++ " " ++
      interval lower upper
  | unknownDisplayFormat name => "FORMAT(name): unknown display format (" ++ name ++ ")"
  | unsupportedParameter name => "unsupported generator parameter (" ++ name ++ ")"
  | invalidParameterValue name problem => name ++ ": " ++ problem
  | groupNotExpected context => context ++ ": group expression not expected"
  | integerExpected context received =>
    context ++ ": integer literal expected, got " ++ received
  | groupMissing name => "not constructed properly: DEFINE section '" ++ name ++ "' is missing"
  | generatorMissing => "not constructed properly: GENERATE section is missing"

/-- Where in the text the cause stands. -/
def location? : Problem → Option Location
  | unexpectedToken _ _ location => location
  | _ => none

/-- How to mend a cause. -/
def hint? : Problem → Option Text
  | unexpectedToken .. => some "Check the statement starting at this token"
  | sourceTooLarge .. =>
    some "Configure max_source_size in the FuzlParser constructor to increase limit"
  | defineRequired => some "Start the program with 'DEFINE <name>'"
  | duplicateAlias .. => some "Field aliases must be unique within a DEFINE section"
  | fieldNotFound name _ => some ("Declare the field with 'AS " ++ name ++ "' before updating it")
  | programNotFinished _ => some "End the program with a 'GENERATE <name> WITH' section"
  | unsupportedFieldType _ =>
    some "Type names are matched case-sensitively, e.g. 'u32', 'le_i16', 'string'"
  | unsupportedParameter _ => some "Supported parameters: OUT_MIN, OUT_MAX, TERM"
  | _ => none

/-- The attribute or parameter that a cause is about. -/
def subject? : Problem → Option Text
  | noCurrentField attr | unsupportedAttribute attr _ | invalidAttributeValue attr _ _
  | valueOutOfFormat attr .. => some attr
  | unknownDisplayFormat _ => some "FORMAT"
  | unsupportedParameter name | invalidParameterValue name _ => some name
  | _ => none

/-- What was expected in the place of a cause. -/
def expected? : Problem → Option Text
  | invalidAttributeValue _ usage _ => some usage
  | valueOutOfFormat _ _ _ lower upper => some (interval lower upper)
  | unknownDisplayFormat _ => some "bin, oct, dec or hex"
  | groupNotExpected _ => some "single literal"
  | integerExpected .. => some "integer"
  | _ => none

/-- What was there in the place of a cause. -/
def received? : Problem → Option Text
  | unexpectedToken token .. => some token
  | valueOutOfFormat _ value .. => some (Text.decimal value)
  | unknownDisplayFormat name => some name
  | groupNotExpected _ => some "group"
  | integerExpected _ received => some received
  | _ => none

/-- The diagnostic that tells of a cause. -/
def diagnostic (p : Problem) : Diagnostic :=
  { code := p.code
    message := p.message
    location := p.location?
    hint := p.hint?
    subject := p.subject?
    expected := p.expected?
    received := p.received? }

end Problem

end ByteLayout
