import ByteLayout.Diagnostic
import ByteLayout.Text.Json

/-!
# Styles of diagnostics

A diagnostic as text, in three styles: a block with a line for everything that is known, one line
with the place and the message, or a JSON object. Circumstances with an empty text are left out, as
if they were missing; the severity may be coloured in the block.
-/

namespace ByteLayout

/-- The styles. -/
inductive DiagnosticStyle where
  /-- A headline and a line for each circumstance. -/
  | block
  /-- The code, the place and the message on one line. -/
  | line
  /-- A JSON object. -/
  | json
  deriving DecidableEq, Repr

/-- The style of a name. -/
def DiagnosticStyle.ofName? (name : Text) : Option DiagnosticStyle :=
  if name = "rust" then some .block
  else if name = "simple" then some .line
  else if name = "json" then some .json
  else none

namespace Diagnostic

/-- A text that is there and not empty. -/
def present? (text : Option Text) : Option Text :=
  text.filter (· ≠ ("" : Text))

/-- The severity, in the colour of an error or of anything else. -/
def paintedSeverity (d : Diagnostic) (colour : Bool) : Text :=
  if colour then
    "\x1b[" ++ (if d.severity = "error" then "1;31" else "1;33") ++ "m" ++ d.severity ++ "\x1b[0m"
  else d.severity

/-- The lines of a diagnostic in a block. -/
def blockLines (d : Diagnostic) (colour : Bool) : List Text :=
  let circumstance (label : Text) (text : Option Text) : List Text :=
    ((present? text).map fun text => "  = " ++ label ++ ": " ++ text).toList
  (d.paintedSeverity colour ++ "[" ++ d.code.name ++ "]: " ++ d.message) ::
    (d.location.map fun l =>
      "  --> line " ++ Text.decimal l.line ++ ", column " ++ Text.decimal l.column).toList ++
    circumstance "attribute" d.subject ++ circumstance "expected" d.expected ++
    circumstance "received" d.received ++ circumstance "help" d.hint

/-- A diagnostic as a block. -/
def block (d : Diagnostic) (colour : Bool := false) : Text :=
  Text.intercalate "\n" (d.blockLines colour)

/-- A diagnostic on one line. -/
def line (d : Diagnostic) : Text :=
  match d.location with
  | none => d.code.name ++ ": " ++ d.message
  | some l =>
    d.code.name ++ " at " ++ Text.decimal l.line ++ ":" ++ Text.decimal l.column ++ ": " ++
      d.message

/-- The members of a diagnostic as an object. -/
def jsonMembers (d : Diagnostic) : List (Text × Text.JsonScalar) :=
  let circumstance (label : Text) (text : Option Text) : List (Text × Text.JsonScalar) :=
    ((present? text).map fun text => (label, .text text)).toList
  let place : List (Text × Text.JsonScalar) := match d.location with
    | none => []
    | some l => [("line", .number l.line), ("column", .number l.column),
        ("start", .number l.start), ("end", .number l.stop)]
  let head : List (Text × Text.JsonScalar) :=
    [("code", .text d.code.name), ("code_value", .number d.code.number),
      ("message", .text d.message), ("severity", .text d.severity)]
  head ++ place ++ circumstance "attribute" d.subject ++ circumstance "expected" d.expected ++
    circumstance "received" d.received ++ circumstance "hint" d.hint

/-- A diagnostic as a JSON object. -/
def json (d : Diagnostic) : Text :=
  Text.jsonObject d.jsonMembers

/-- A diagnostic in a style. -/
def format (d : Diagnostic) (style : DiagnosticStyle := .block) (colour : Bool := false) : Text :=
  match style with
  | .block => d.block colour
  | .line => d.line
  | .json => d.json

/-- Several diagnostics in a style, with an empty line between two. -/
def formatAll (ds : List Diagnostic) (style : DiagnosticStyle) (colour : Bool) : Text :=
  Text.intercalate "\n\n" (ds.map fun d => d.format style colour)

end Diagnostic

end ByteLayout
