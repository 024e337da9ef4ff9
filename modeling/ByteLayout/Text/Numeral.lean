import ByteLayout.Text

/-!
# Numerals

Integers as text and back. A numeral is written in a base from 2 to 16 with lower-case digits, a
leading `-` for a negative number, no base mark and no leading zero but that of `0` itself. Reading
takes digits of either case; a decimal run of more than `digitLimit` digits is refused.
-/

namespace ByteLayout.Text

/-- The number a digit stands for, in bases up to sixteen; `0` for any other character. -/
def digitValue (c : CodePoint) : Nat :=
  if '0' ≤ c ∧ c ≤ '9' then c.toNat - 48
  else if 'a' ≤ c ∧ c ≤ 'f' then c.toNat - 87
  else if 'A' ≤ c ∧ c ≤ 'F' then c.toNat - 55
  else 0

/-- Whether a character is a decimal digit of ASCII. -/
def isDecimalDigit (c : CodePoint) : Bool :=
  '0' ≤ c && c ≤ '9'

/-- Whether a character is a hexadecimal digit of either case. -/
def isHexDigit (c : CodePoint) : Bool :=
  isDecimalDigit c || ('a' ≤ c && c ≤ 'f') || ('A' ≤ c && c ≤ 'F')

/-- The number that a run of digits denotes in a base. -/
def ofDigits (base : Nat) (digits : List CodePoint) : Nat :=
  digits.foldl (fun n c => base * n + digitValue c) 0

/-- A natural number in a base, most significant digit first. -/
def naturalDigits (base n : Nat) : List CodePoint :=
  (Nat.toDigits base n).map .scalar

/-- An integer in a base, with a `-` before the digits of a negative one. -/
def numeralDigits (base : Nat) (n : Int) : List CodePoint :=
  if n < 0 then scalar '-' :: naturalDigits base n.natAbs else naturalDigits base n.natAbs

/-- An integer as a numeral of a base. -/
def numeral (base : Nat) (n : Int) : Text :=
  Text.ofList (numeralDigits base n)

/-- An integer in decimal, however many digits it has. Offsets, sizes and lengths are shown so; for
a number of any size see `writeDecimal`, which keeps to the limit. -/
def decimal (n : Int) : Text :=
  numeral 10 n

/-- Digits read from the least significant end, with a comma after every third but the last. -/
def groupThousands : List CodePoint → List CodePoint
  | a :: b :: c :: d :: rest => a :: b :: c :: scalar ',' :: groupThousands (d :: rest)
  | digits => digits

/-- An integer in decimal with a comma between groups of three digits. -/
def decimalGrouped (n : Int) : Text :=
  let digits := (groupThousands (naturalDigits 10 n.natAbs).reverse).reverse
  Text.ofList (if n < 0 then scalar '-' :: digits else digits)

/-- The number written with exactly `width` hexadecimal digits, its higher digits dropped. -/
def hexOfWidth : Nat → Nat → List CodePoint
  | 0, _ => []
  | width + 1, n => hexOfWidth width (n / 16) ++ [.scalar (Nat.digitChar (n % 16))]

/-- A byte as two hexadecimal digits. -/
def hexByte (b : UInt8) : List CodePoint :=
  hexOfWidth 2 b.toNat

/-- The longest decimal run that is read as a number, or written for one. -/
def digitLimit : Nat := 4300

/-- The number of a decimal run, or the run's length when it passes the limit. -/
def readDecimal (digits : List CodePoint) : Except Nat Nat :=
  if digits.length ≤ digitLimit then .ok (ofDigits 10 digits) else .error digits.length

/-- The low 64 bits of an integer, read as a signed number. -/
def wrap64 (n : Int) : Int :=
  n.bmod UInt64.size

@[simp] theorem length_hexOfWidth (width n : Nat) : (hexOfWidth width n).length = width := by
  induction width generalizing n with
  | zero => rfl
  | succ width ih => simp [hexOfWidth, ih]

end ByteLayout.Text
