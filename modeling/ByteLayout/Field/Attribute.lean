import ByteLayout.Edit
import ByteLayout.Field.Definition
import ByteLayout.Text.Case

/-!
# Attributes

How a field definition takes an attribute. `RANGE(min max)` goes to numbers, `FORMAT(name)` to
numbers as text, `LEN(length)` and `LEN(min max)` to random texts and bytes; the names of
attributes are matched with regard to case. An attribute either gives a new definition or names the
first condition that its arguments fail.

A bound outside the format is named by the message of the error, which a bound of too many digits
cannot be; then the number itself is the error.

The same is told in place at the end: a definition is edited, and each number of a range and each
length is assigned on its own.
-/

namespace ByteLayout

/-- The arguments of a range as the message of an error shows them. -/
def rangeUsage : Text := "RANGE(min max)"

/-- The error of a bound outside the format, whose message names the bound. -/
def NumberRange.outside (r : NumberRange) (bound : Int) : UpdateError :=
  match Text.writeDecimal bound with
  | .ok _ =>
    .problem (.valueOutOfFormat "RANGE" bound r.format.name r.format.minimum r.format.maximum)
  | .error e => .unwritable e

/-- The range between two bounds of a format, the lower one first. -/
def NumberRange.between (r : NumberRange) (lower upper : Int) : Except UpdateError NumberRange :=
  if lower < r.format.minimum ∨ r.format.maximum < lower then .error (r.outside lower)
  else if upper < r.format.minimum ∨ r.format.maximum < upper then .error (r.outside upper)
  else if upper < lower then
    .error (.problem (.invalidAttributeValue "RANGE" rangeUsage "min > max is not allowed"))
  else .ok { r with min := lower, max := upper }

/-- The range of the arguments of `RANGE`. -/
def NumberRange.ofArgument (r : NumberRange) : Expr → Except UpdateError NumberRange
  | .group [lower, upper] => do
    let lower ← (lower.asInteger rangeUsage).mapError .problem
    let upper ← (upper.asInteger rangeUsage).mapError .problem
    r.between lower upper
  | _ => .error (.problem (.invalidAttributeValue "RANGE" rangeUsage "expects exactly 2 values"))

/-- The base of the argument of `FORMAT`. -/
def DisplayBase.ofArgument : Expr → Except Problem DisplayBase
  | .group _ => .error (.invalidAttributeValue "FORMAT" "FORMAT(name)" "expects exactly 1 value")
  | .literal (.text name) | .literal (.reserved name) =>
    match ofName? (Text.lower name) with
    | some base => .ok base
    | none => .error (.unknownDisplayFormat name)
  | .literal l =>
    .error (.invalidAttributeValue "FORMAT" "FORMAT(name)"
      ("format name expected, got " ++ l.describe))

/-- The lengths of the arguments of `LEN`. -/
def LengthBounds.ofArgument : Expr → Except Problem LengthBounds
  | .literal (.integer n) =>
    if n < 0 then .error (.invalidAttributeValue "LEN" "LEN(value)" "value < 0 is not allowed")
    else .ok ⟨n, n⟩
  | .literal l =>
    .error (.invalidAttributeValue "LEN" "LEN(value)" ("integer expected, got " ++ l.describe))
  | .group [lower, upper] => do
    let lower ← lower.asInteger "LEN(min max)"
    let upper ← upper.asInteger "LEN(min max)"
    if upper < lower then
      .error (.invalidAttributeValue "LEN" "LEN(min max)" "min > max is not allowed")
    else if lower < 0 then
      .error (.invalidAttributeValue "LEN" "LEN(min max)" "min < 0 is not allowed")
    else .ok ⟨lower, upper⟩
  | .group _ => .error (.invalidAttributeValue "LEN" "LEN(min max)" "expects 1 or 2 values")

namespace FieldDefinition

/-- A definition with an attribute set. -/
def update (d : FieldDefinition) (attr : Text) (argument : Expr) :
    Except UpdateError FieldDefinition :=
  match d with
  | constant _ => .error (.problem (.attributesNotAllowed d.kindName))
  | textNumber range display =>
    if attr = "RANGE" then (range.ofArgument argument).map fun range => textNumber range display
    else if attr = "FORMAT" then
      ((DisplayBase.ofArgument argument).mapError .problem).map fun base =>
        textNumber range (some base)
    else .error (.problem (.unsupportedAttribute attr d.kindName))
  | byteNumber range order =>
    if attr = "RANGE" then (range.ofArgument argument).map fun range => byteNumber range order
    else .error (.problem (.unsupportedAttribute attr d.kindName))
  | text _ =>
    if attr = "LEN" then ((LengthBounds.ofArgument argument).mapError .problem).map text
    else .error (.problem (.unsupportedAttribute attr d.kindName))
  | bytes _ =>
    if attr = "LEN" then ((LengthBounds.ofArgument argument).mapError .problem).map bytes
    else .error (.problem (.unsupportedAttribute attr d.kindName))

end FieldDefinition

/-! ## In place -/

/-- Assigns the range of the arguments of `RANGE`. -/
def NumberRange.assign (argument : Expr) : Edit NumberRange UpdateError Unit := do
  let range ← (← get).ofArgument argument
  modify ({ · with min := range.min })
  modify ({ · with max := range.max })

/-- Assigns the lengths of the arguments of `LEN`. -/
def LengthBounds.assign (argument : Expr) : Edit LengthBounds UpdateError Unit := do
  let length ← (LengthBounds.ofArgument argument).mapError UpdateError.problem
  modify ({ · with min := length.min })
  modify ({ · with max := length.max })

/-- Assigns an attribute of a definition. -/
def FieldDefinition.assign (attr : Text) (argument : Expr) :
    Edit FieldDefinition UpdateError Unit := do
  let d ← get
  match d with
  | constant _ => throw (.problem (.attributesNotAllowed d.kindName))
  | textNumber range display =>
    if attr = "RANGE" then
      Edit.ofPart range (fun range _ => textNumber range display) (NumberRange.assign argument)
    else if attr = "FORMAT" then do
      let base ← (DisplayBase.ofArgument argument).mapError UpdateError.problem
      set (textNumber range (some base))
    else throw (.problem (.unsupportedAttribute attr d.kindName))
  | byteNumber range order =>
    if attr = "RANGE" then
      Edit.ofPart range (fun range _ => byteNumber range order) (NumberRange.assign argument)
    else throw (.problem (.unsupportedAttribute attr d.kindName))
  | text length =>
    if attr = "LEN" then
      Edit.ofPart length (fun length _ => text length) (LengthBounds.assign argument)
    else throw (.problem (.unsupportedAttribute attr d.kindName))
  | bytes length =>
    if attr = "LEN" then
      Edit.ofPart length (fun length _ => bytes length) (LengthBounds.assign argument)
    else throw (.problem (.unsupportedAttribute attr d.kindName))

end ByteLayout
