import ByteLayout.Text.Numeral
import ByteLayout.Text.Printable

/-!
# Quoted texts

The form in which messages and dumps show a text or a run of bytes: between quotation marks, on one
line, with every hidden character written as an escape. The mark is the apostrophe, unless the text
holds an apostrophe and no double quote. The mark itself and the backslash are escaped by a
backslash, and the escapes of hidden characters are as short as their code points allow.

A tuple is shown in parentheses, and one of a single member keeps a comma after it.
-/

namespace ByteLayout.Text

/-- The apostrophe. -/
def apostrophe : CodePoint := '\x27'

/-- The quotation mark around a text. -/
def quotationMark (text : List CodePoint) : CodePoint :=
  if text.contains apostrophe && !text.contains '"' then '"' else apostrophe

/-- The escape of a code point by its number, as short as the number allows. -/
def escape (c : CodePoint) : List CodePoint :=
  if c.toNat < 0x100 then scalar '\\' :: scalar 'x' :: hexOfWidth 2 c.toNat
  else if c.toNat < 0x10000 then scalar '\\' :: scalar 'u' :: hexOfWidth 4 c.toNat
  else scalar '\\' :: scalar 'U' :: hexOfWidth 8 c.toNat

/-- How a character stands between two quotation marks. -/
def quoteChar (mark c : CodePoint) : List CodePoint :=
  if c = mark ∨ c = '\\' then ['\\', c]
  else if c = '\n' then [scalar '\\', scalar 'n']
  else if c = '\r' then [scalar '\\', scalar 'r']
  else if c = '\t' then [scalar '\\', scalar 't']
  else if isPrintable c then [c]
  else escape c

/-- A text between quotation marks, as characters. -/
def quoteChars (text : List CodePoint) : List CodePoint :=
  let mark := quotationMark text
  mark :: text.flatMap (quoteChar mark) ++ [mark]

/-- A text between quotation marks. -/
def quote (text : Text) : Text :=
  ofList (quoteChars text.toList)

/-- How a byte stands between two quotation marks; those outside ASCII are escaped. -/
def quoteByte (mark : CodePoint) (b : UInt8) : List CodePoint :=
  if b.toNat < 0x7F then quoteChar mark (Char.ofNat b.toNat)
  else scalar '\\' :: scalar 'x' :: hexByte b

/-- A run of bytes between quotation marks, with a `b` before them. -/
def quoteBytes (bytes : List UInt8) : Text :=
  let mark := quotationMark (bytes.map fun b => Char.ofNat b.toNat)
  ofList (scalar 'b' :: (mark :: bytes.flatMap (quoteByte mark) ++ [mark]))

/-- Members shown as a tuple. -/
def tuple : List Text → Text
  | [member] => "(" ++ member ++ ",)"
  | members => "(" ++ intercalate ", " members ++ ")"

/-- A pair is shown with a comma between its members. -/
theorem tuple_pair (a b : Text) : tuple [a, b] = "(" ++ (a ++ ", " ++ b) ++ ")" := by
  have hpair : intercalate ", " [a, b] = a ++ ", " ++ b := by
    simp [← toList_inj, List.intercalate]
  rw [← hpair]
  rfl

end ByteLayout.Text
