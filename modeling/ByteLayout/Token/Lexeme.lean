import ByteLayout.Text.Case
import ByteLayout.Token

/-!
# Lexemes

The classes of tokens, one recogniser each. A recogniser looks at the front of a text and answers
with the lexeme of its class that begins there, if one does: its kind, its value and the number of
characters it takes. `lexemeAt` asks the classes in a fixed order and takes the first answer; a
character that begins no lexeme of another class is an illegal one of its own, so at every character
some lexeme begins.

A decimal run beyond the limit for numbers is neither a lexeme nor none: it stops the reading.
-/

namespace ByteLayout

/-- A decimal run is too long to be read as a number. -/
structure DigitLimit where
  /-- The length of the run, without its sign. -/
  digits : Nat
  deriving DecidableEq, Repr

/-- The text of the error. -/
def DigitLimit.message (e : DigitLimit) : Text :=
  "Exceeds the limit (" ++ Text.decimal Text.digitLimit ++
    " digits) for integer string conversion: value has " ++ Text.decimal e.digits ++
    " digits; use sys.set_int_max_str_digits() to increase the limit"

/-- What a class of tokens found at the front of a text. -/
structure Lexeme where
  /-- The kind of the token. -/
  kind : TokenKind
  /-- The value of the token. -/
  value : TokenValue := .none
  /-- The number of characters that the token takes. -/
  size : Nat
  /-- A lexeme takes at least one character. -/
  size_pos : 0 < size := by omega
  deriving DecidableEq, Repr

namespace Lexeme

/-! ## Vocabulary -/

/-- Whether a character separates tokens. -/
def isBlank (c : CodePoint) : Bool :=
  c = ' ' || c = '\t' || c = '\r' || c = '\n'

/-- Whether a character is an ASCII letter. -/
def isLetter (c : CodePoint) : Bool :=
  ('a' ≤ c && c ≤ 'z') || ('A' ≤ c && c ≤ 'Z')

/-- Whether a character may go on with a name. -/
def isNameChar (c : CodePoint) : Bool :=
  isLetter c || Text.isDecimalDigit c || c = '_'

/-- The names of field types, in lower case. -/
def typeNames : List Text :=
  ["i8", "i16", "i32", "i64", "u8", "u16", "u32", "u64",
    "le_u16", "le_u32", "le_u64", "le_i16", "le_i32", "le_i64",
    "be_u16", "be_u32", "be_u64", "be_i16", "be_i32", "be_i64",
    "bytes", "ref", "string"]

/-- The reserved names, in lower case. -/
def reservedNames : List Text :=
  ["null", "lf", "rf"]

/-- The keyword that a word in lower case spells. -/
def keyword? (word : Text) : Option TokenKind :=
  if word = "as" then some .asWord
  else if word = "define" then some .defineWord
  else if word = "from" then some .fromWord
  else if word = "generate" then some .generateWord
  else if word = "where" then some .whereWord
  else if word = "with" then some .withWord
  else none

/-! ## Parts of lexemes -/

/-- The name at the front of a text: a letter, then letters, digits and underscores. -/
def nameAt? : List CodePoint → Option (List CodePoint)
  | [] => none
  | c :: rest => if isLetter c then some (c :: rest.takeWhile isNameChar) else none

/-- The characters between a mark at the front of a text and the next one, if there are any. -/
def bodyAt? (mark : CodePoint) : List CodePoint → Option (List CodePoint)
  | [] => none
  | c :: rest =>
    if c = mark then
      match rest.takeWhile (· != mark), rest.dropWhile (· != mark) with
      | [], _ => none
      | _, [] => none
      | body, _ :: _ => some body
    else none

/-- The minus sign at the front of a text, or nothing, and what is left. -/
def signAt : List CodePoint → List CodePoint × List CodePoint
  | scalar '-' :: rest => ([scalar '-'], rest)
  | rest => ([], rest)

/-- The pieces of a text between single spaces. -/
def splitAtSpaces (text : List CodePoint) : List (List CodePoint) :=
  text.splitOnP (· == ' ')

/-- The byte that a hexadecimal chunk denotes. -/
def chunkByte? (chunk : List CodePoint) : Option UInt8 :=
  if chunk ≠ [] ∧ chunk.all Text.isHexDigit ∧ Text.ofDigits 16 chunk ≤ 0xFF then
    some (UInt8.ofNat (Text.ofDigits 16 chunk))
  else none

/-! ## Recognisers -/

/-- A text literal: one character or more between double quotes, with no escapes. -/
def text? (source : List CodePoint) : Option Lexeme :=
  (bodyAt? '"' source).map fun body =>
    { kind := .text, value := .text (Text.ofList body), size := body.length + 2 }

/-- A byte literal: hexadecimal chunks between backticks with one space between two. -/
def bytes? (source : List CodePoint) : Option Lexeme :=
  (bodyAt? '\x60' source).bind fun body =>
    ((splitAtSpaces body).mapM chunkByte?).map fun bytes =>
      { kind := .bytes, value := .bytes bytes, size := body.length + 2 }

/-- An array type: a name and a size in brackets. A minus sign before the size is passed over, and a
size of more than 32 bits makes no array type. -/
def typeArray? (source : List CodePoint) : Except DigitLimit (Option Lexeme) :=
  match nameAt? source with
  | none => .ok none
  | some name =>
    match source.drop name.length with
    | scalar '[' :: inner =>
      let (sign, inner) := signAt inner
      let digits := inner.takeWhile Text.isDecimalDigit
      match digits, inner.drop digits.length with
      | _ :: _, scalar ']' :: _ =>
        match Text.readDecimal digits with
        | .error count => .error ⟨count⟩
        | .ok size =>
          if size ≤ 0xFFFFFFFF then
            .ok (some
              { kind := .typeArray
                value := .sized (Text.ofList name) size
                size := name.length + 1 + sign.length + digits.length + 1 })
          else .ok none
      | _, _ => .ok none
    | _ => .ok none

/-- A word: a name, which is a type name, a reserved name, a keyword or an identifier. The classes
are looked up in this order and without regard to case; the value keeps the spelling. -/
def word? (source : List CodePoint) : Option Lexeme :=
  match nameAt? source with
  | none | some [] => none
  | some (c :: more) =>
    let spelling := Text.ofList (c :: more)
    let size := more.length + 1
    let word := Text.lower spelling
    if word ∈ typeNames then some { kind := .typeName, value := .text spelling, size }
    else if word ∈ reservedNames then some { kind := .reserved, value := .text spelling, size }
    else match keyword? word with
      | some kind => some { kind, size }
      | none => some { kind := .identifier, value := .text spelling, size }

/-- An integer: decimal digits, perhaps after a minus sign. A number of more than 64 bits keeps its
low ones. -/
def integer? (source : List CodePoint) : Except DigitLimit (Option Lexeme) :=
  let (sign, rest) := signAt source
  match rest.takeWhile Text.isDecimalDigit with
  | [] => .ok none
  | digit :: digits =>
    match Text.readDecimal (digit :: digits) with
    | .error count => .error ⟨count⟩
    | .ok n =>
      .ok (some
        { kind := .integer
          value := .integer (Text.wrap64 (if sign = [] then n else -n))
          size := sign.length + (digits.length + 1) })

/-- An operator; the arrow goes before the minus sign that it begins with. -/
def operator? : List CodePoint → Option Lexeme
  | scalar '-' :: scalar '>' :: _ => some { kind := .rightArrow, size := 2 }
  | scalar '=' :: _ => some { kind := .assign, size := 1 }
  | scalar '+' :: _ => some { kind := .add, size := 1 }
  | scalar '-' :: _ => some { kind := .subtract, size := 1 }
  | scalar '*' :: _ => some { kind := .multiply, size := 1 }
  | _ => none

/-- A punctuation mark. -/
def punctuation? : List CodePoint → Option Lexeme
  | scalar '(' :: _ => some { kind := .leftParen, size := 1 }
  | scalar ')' :: _ => some { kind := .rightParen, size := 1 }
  | scalar ',' :: _ => some { kind := .comma, size := 1 }
  | scalar '$' :: _ => some { kind := .reference, size := 1 }
  | scalar ':' :: _ => some { kind := .colon, size := 1 }
  | _ => none

/-- One character as an illegal lexeme. -/
def illegal (c : CodePoint) : Lexeme :=
  { kind := .illegal, value := .text (Text.singleton c), size := 1 }

/-- Any character. -/
def illegal? : List CodePoint → Option Lexeme
  | [] => none
  | c :: _ => some (illegal c)

end Lexeme

/-! ## Classes -/

/-- The classes of tokens. -/
inductive TokenClass where
  /-- Text literals. -/
  | text
  /-- Byte literals. -/
  | bytes
  /-- Array types. -/
  | typeArray
  /-- Type names, reserved names, keywords and identifiers. -/
  | word
  /-- Integers. -/
  | integer
  /-- Operators. -/
  | operator
  /-- Punctuation marks. -/
  | punctuation
  /-- Single characters. -/
  | illegal
  deriving DecidableEq, Repr

namespace TokenClass

/-- Every class, in the order in which they are asked. -/
def all : List TokenClass :=
  [text, bytes, typeArray, word, integer, operator, punctuation, illegal]

/-- The lexeme of a class at the front of a text. -/
def lexeme? : TokenClass → List CodePoint → Except DigitLimit (Option Lexeme)
  | text, source => .ok (Lexeme.text? source)
  | bytes, source => .ok (Lexeme.bytes? source)
  | typeArray, source => Lexeme.typeArray? source
  | word, source => .ok (Lexeme.word? source)
  | integer, source => Lexeme.integer? source
  | operator, source => .ok (Lexeme.operator? source)
  | punctuation, source => .ok (Lexeme.punctuation? source)
  | illegal, source => .ok (Lexeme.illegal? source)

/-- The first answer of some classes, asked in order. -/
def firstLexeme? : List TokenClass → List CodePoint → Except DigitLimit (Option Lexeme)
  | [], _ => .ok none
  | c :: classes, source =>
    match c.lexeme? source with
    | .error e => .error e
    | .ok (some lexeme) => .ok (some lexeme)
    | .ok none => firstLexeme? classes source

end TokenClass

/-- The lexeme at the front of a text that begins with `c`. -/
def lexemeAt (c : CodePoint) (rest : List CodePoint) : Except DigitLimit Lexeme :=
  match TokenClass.firstLexeme? TokenClass.all (c :: rest) with
  | .error e => .error e
  | .ok found => .ok (found.getD (.illegal c))

end ByteLayout
