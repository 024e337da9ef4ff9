import ByteLayout.Field.Number
import ByteLayout.Program.Argument

/-!
# Field definitions

What a field of a message may hold: a constant text, a random number as text or as bytes, random
letters and digits, or random bytes. Numbers are drawn from a range and lengths from a pair of
bounds. A definition is made from a type name or from a literal; a new one has the whole range of
its format, or the default lengths.
-/

namespace ByteLayout

/-- The numbers that a number field draws from. -/
structure NumberRange where
  /-- The format of the numbers. -/
  format : NumberFormat
  /-- The least number. -/
  min : Int
  /-- The greatest number. -/
  max : Int
  deriving DecidableEq, Repr

/-- All numbers of a format. -/
def NumberRange.ofFormat (f : NumberFormat) : NumberRange :=
  ⟨f, f.minimum, f.maximum⟩

/-- The lengths that a field of random content draws from. -/
structure LengthBounds where
  /-- The least length. -/
  min : Int := 0
  /-- The greatest length. -/
  max : Int := 4096
  deriving DecidableEq, Repr

/-- What a field holds. -/
inductive FieldDefinition where
  /-- A constant text. -/
  | constant (text : Text)
  /-- A random number as a numeral. -/
  | textNumber (range : NumberRange) (display : Option DisplayBase)
  /-- Random letters and digits. -/
  | text (length : LengthBounds)
  /-- A random number as bytes. -/
  | byteNumber (range : NumberRange) (order : ByteOrder)
  /-- Random bytes. -/
  | bytes (length : LengthBounds)
  deriving DecidableEq, Repr

namespace FieldDefinition

/-- How a message calls a definition. -/
def kindName : FieldDefinition → Text
  | constant _ => "constant string"
  | textNumber _ _ => "text number"
  | text _ => "string"
  | byteNumber _ _ => "byte number"
  | bytes _ => "bytes"

/-- The order that the first letters of a type name call for, and the rest of the name. -/
def splitOrder? (kind : Text) : Option (ByteOrder × Text) :=
  match kind.toList with
  | scalar 'l' :: scalar 'e' :: scalar '_' :: rest => some (.little, Text.ofList rest)
  | scalar 'b' :: scalar 'e' :: scalar '_' :: rest => some (.big, Text.ofList rest)
  | _ => none

/-- The definition of a type name, if it has one. Names are matched with regard to case. -/
def ofTypeName? (kind : Text) : Option FieldDefinition :=
  match splitOrder? kind with
  | some (order, rest) =>
    (NumberFormat.ofName? rest).map fun f => byteNumber (.ofFormat f) order
  | none =>
    if kind = "string" then some (text {})
    else if kind = "bytes" then some (bytes {})
    else (NumberFormat.ofName? kind).map fun f => textNumber (.ofFormat f) none

/-- The definition of a field of random content. -/
def ofTypeName (kind : Text) : Except Problem FieldDefinition :=
  match ofTypeName? kind with
  | some definition => .ok definition
  | none => .error (.unsupportedFieldType kind)

/-- The definition of a field of constant content. An integer is a number of 64 bits with a sign
whose range holds nothing else. -/
def ofLiteral : Literal → Except Problem FieldDefinition
  | .integer n => .ok (textNumber ⟨⟨true, .eight⟩, n, n⟩ none)
  | .text s => .ok (constant s)
  | .bytes _ => .error (.literalFieldNotImplemented "bytes")
  | .reserved _ => .error (.literalFieldNotImplemented "reserved")

end FieldDefinition

/-- The number format of a name. -/
def NumberFormat.ofName (name : Text) : Except Problem NumberFormat :=
  match ofName? name with
  | some f => .ok f
  | none => .error (.unknownTypeName name)

end ByteLayout
