import ByteLayout.Text.Encoding

/-!
# Number formats

The integers that number fields emit. A format is a sign and a width of one, two, four or eight
bytes; its range is that of two's complement, or the natural numbers of the width. A number of a
range is emitted either as a numeral in a base or as the bytes of its format in one of two orders.
-/

namespace ByteLayout

/-- The widths of numbers. -/
inductive NumberWidth where
  /-- One byte. -/
  | one
  /-- Two bytes. -/
  | two
  /-- Four bytes. -/
  | four
  /-- Eight bytes. -/
  | eight
  deriving DecidableEq, Repr

/-- The number of bytes of a width. -/
def NumberWidth.bytes : NumberWidth → Nat
  | one => 1
  | two => 2
  | four => 4
  | eight => 8

/-- An integer format. -/
structure NumberFormat where
  /-- Whether the format has negative numbers. -/
  signed : Bool
  /-- The width of its numbers. -/
  width : NumberWidth
  deriving DecidableEq, Repr

namespace NumberFormat

/-- Every format. -/
def all : List NumberFormat :=
  [⟨true, .one⟩, ⟨true, .two⟩, ⟨true, .four⟩, ⟨true, .eight⟩,
    ⟨false, .one⟩, ⟨false, .two⟩, ⟨false, .four⟩, ⟨false, .eight⟩]

/-- The number of bytes of a number. -/
def bytes (f : NumberFormat) : Nat :=
  f.width.bytes

/-- The number of bits of a number. -/
def bits (f : NumberFormat) : Nat :=
  8 * f.bytes

/-- The name of a format. -/
def name : NumberFormat → Text
  | ⟨true, .one⟩ => "i8"
  | ⟨true, .two⟩ => "i16"
  | ⟨true, .four⟩ => "i32"
  | ⟨true, .eight⟩ => "i64"
  | ⟨false, .one⟩ => "u8"
  | ⟨false, .two⟩ => "u16"
  | ⟨false, .four⟩ => "u32"
  | ⟨false, .eight⟩ => "u64"

/-- The format of a name, which is matched with regard to case. -/
def ofName? (name : Text) : Option NumberFormat :=
  all.find? fun f => f.name = name

/-- How many numbers a format has: one for each of its bit patterns. -/
def count (f : NumberFormat) : Nat :=
  Nat.pow 2 f.bits

/-- The least number of a format. A sign halves the natural numbers of the width. -/
def minimum (f : NumberFormat) : Int :=
  if f.signed then -(f.count / 2 : Nat) else 0

/-- The greatest number of a format. -/
def maximum (f : NumberFormat) : Int :=
  f.minimum + f.count - 1

/-- Every format has a number. -/
theorem minimum_le_maximum (f : NumberFormat) : f.minimum ≤ f.maximum := by
  obtain ⟨signed, width⟩ := f
  cases signed <;> cases width <;> decide

end NumberFormat

/-! ## Numbers as text -/

/-- The bases that numbers are shown in. -/
inductive DisplayBase where
  /-- Base two. -/
  | binary
  /-- Base eight. -/
  | octal
  /-- Base ten. -/
  | decimal
  /-- Base sixteen. -/
  | hexadecimal
  deriving DecidableEq, Repr

namespace DisplayBase

/-- The number of digits of a base. -/
def radix : DisplayBase → Nat
  | binary => 2
  | octal => 8
  | decimal => 10
  | hexadecimal => 16

/-- The name of a base. -/
def name : DisplayBase → Text
  | binary => "bin"
  | octal => "oct"
  | decimal => "dec"
  | hexadecimal => "hex"

/-- The base of a name in lower case. -/
def ofName? (name : Text) : Option DisplayBase :=
  [binary, octal, decimal, hexadecimal].find? fun b => b.name = name

@[simp] theorem ofName?_name (b : DisplayBase) : ofName? b.name = some b := by
  cases b <;> decide

end DisplayBase

/-- A number as a numeral of a base, which is ten unless said otherwise. Only in base ten can a
number have too many digits. -/
def renderNumber (n : Int) (display : Option DisplayBase) : Except Text.Unwritable Text :=
  match display.getD .decimal with
  | .decimal => Text.writeDecimal n
  | base => .ok (Text.numeral base.radix n)

/-- The bytes of a number as a numeral. -/
def numeralBytes (n : Int) (display : Option DisplayBase) :
    Except Text.Unwritable (List UInt8) := do
  Text.encode .ascii (← renderNumber n display).toList

/-! ## Numbers as bytes -/

/-- The orders of the bytes of a number. -/
inductive ByteOrder where
  /-- The most significant byte comes first. -/
  | big
  /-- The least significant byte comes first. -/
  | little
  deriving DecidableEq, Repr

/-- The name of an order. -/
def ByteOrder.name : ByteOrder → Text
  | big => "big"
  | little => "little"

/-- The order of a name. -/
def ByteOrder.ofName? (name : Text) : Option ByteOrder :=
  [big, little].find? fun o => o.name = name

/-- Why a number has no bytes in a format. -/
inductive EncodingError where
  /-- The number lies outside the range of the format. -/
  | outOfRange
  /-- The number is negative and the format has no sign. -/
  | negative
  deriving DecidableEq, Repr

/-- The text of the error. -/
def EncodingError.message : EncodingError → Text
  | outOfRange => "int too big to convert"
  | negative => "can't convert negative int to unsigned"

/-- The lowest `width` bytes of a natural number, the least significant one first. -/
def littleEndian : (width n : Nat) → List UInt8
  | 0, _ => []
  | width + 1, n => UInt8.ofNat (n % 256) :: littleEndian width (n / 256)

/-- A number has as many bytes as are asked for. -/
@[simp] theorem length_littleEndian (width n : Nat) : (littleEndian width n).length = width := by
  induction width generalizing n with
  | zero => rfl
  | succ width ih => simp [littleEndian, ih]

/-- A number as the bytes of a format, in two's complement for a format with a sign. -/
def NumberFormat.encode (f : NumberFormat) (order : ByteOrder) (n : Int) :
    Except EncodingError (List UInt8) :=
  if !f.signed ∧ n < 0 then .error .negative
  else if n < f.minimum ∨ f.maximum < n then .error .outOfRange
  else
    let bytes := littleEndian f.bytes (n % f.count).toNat
    .ok (match order with
      | .little => bytes
      | .big => bytes.reverse)

end ByteLayout
