import ByteLayout.Text.Quoted
import ByteLayout.Text.Utf8

/-!
# Encoding texts and numbers

Texts as bytes and numbers as texts, where both may fail. A codec covers some code points: UTF-8 all
characters, ASCII the first 128 of them. A text is encoded if all of its code points are covered,
and both codecs give a code point that both cover the same bytes. An integer is written in decimal
if it has at most `digitLimit` digits.
-/

namespace ByteLayout.Text

/-- The ways in which a text becomes bytes. -/
inductive Codec where
  /-- Every character has bytes. -/
  | utf8
  /-- The characters below 128 have a byte each. -/
  | ascii
  deriving DecidableEq, Repr

namespace Codec

/-- Whether a code point has bytes. -/
def covers : Codec → CodePoint → Bool
  | utf8, c => !c.isSurrogate
  | ascii, c => c.toNat < 0x80

/-- How a message calls a codec. -/
def name : Codec → Text
  | utf8 => "utf-8"
  | ascii => "ascii"

/-- Why a code point that is not covered has no bytes. -/
def reason : Codec → Text
  | utf8 => "surrogates not allowed"
  | ascii => "ordinal not in range(128)"

end Codec

/-- Why a text has no bytes, or a number no text. -/
inductive Unwritable where
  /-- A run of `count` code points that a codec does not cover. It begins at `start` with
  `first`. -/
  | uncovered (codec : Codec) (first : CodePoint) (start count : Nat)
  /-- A number with more decimal digits than the limit. -/
  | tooManyDigits
  deriving DecidableEq, Repr

/-- The text of the error. -/
def Unwritable.message : Unwritable → Text
  | uncovered codec first start count =>
    let place :=
      if count = 1 then
        "character '" ++ ofList (escape first) ++ "' in position " ++ decimal start
      else "characters in position " ++ decimal start ++ "-" ++ decimal (start + count - 1 : Nat)
    "'" ++ codec.name ++ "' codec can't encode " ++ place ++ ": " ++ codec.reason
  | tooManyDigits =>
    "Exceeds the limit (" ++ decimal digitLimit ++ " digits) for integer string conversion; " ++
      "use sys.set_int_max_str_digits() to increase the limit"

/-- The bytes of a text in a codec, or the first run of code points that have none. -/
def encode (codec : Codec) (text : List CodePoint) : Except Unwritable (List UInt8) :=
  match text.dropWhile codec.covers with
  | [] => .ok (utf8Chars (text.filterMap CodePoint.scalar?))
  | c :: after =>
    .error (.uncovered codec c (text.takeWhile codec.covers).length
      ((after.takeWhile fun c => !codec.covers c).length + 1))

/-- The bytes of a text in UTF-8. -/
def utf8 (text : Text) : Except Unwritable (List UInt8) :=
  encode .utf8 text.toList

/-- An integer in decimal, if it has no more digits than the limit. -/
def writeDecimal (n : Int) : Except Unwritable Text :=
  if (naturalDigits 10 n.natAbs).length ≤ digitLimit then .ok (decimal n) else .error .tooManyDigits

end ByteLayout.Text
