import ByteLayout.Span
import ByteLayout.Text.Quoted

/-!
# Tokens

The words of the layout language. A token has a kind, a value and, when it was read from a text, the
span it was read from. The reader of programs accepts tokens of any origin, so kind and value are
independent here; `Token.agrees` compares two tokens without regard to where they stand, and
`Token.inspect` shows kind and value on one line.
-/

namespace ByteLayout

/-- The kinds of tokens. -/
inductive TokenKind where
  /-- The keyword `AS`. -/
  | asWord
  /-- The keyword `DEFINE`. -/
  | defineWord
  /-- The keyword `FROM`. -/
  | fromWord
  /-- The keyword `GENERATE`. -/
  | generateWord
  /-- The keyword `WHERE`. -/
  | whereWord
  /-- The keyword `WITH`. -/
  | withWord
  /-- `(` -/
  | leftParen
  /-- `)` -/
  | rightParen
  /-- `,` -/
  | comma
  /-- `:` -/
  | colon
  /-- `$` -/
  | reference
  /-- `=` -/
  | assign
  /-- `+` -/
  | add
  /-- `-` -/
  | subtract
  /-- `*` -/
  | multiply
  /-- `->` -/
  | rightArrow
  /-- An integer. -/
  | integer
  /-- A text between double quotes. -/
  | text
  /-- A sequence of bytes between backticks. -/
  | bytes
  /-- The name of a field type. -/
  | typeName
  /-- The name of an array type with its size. -/
  | typeArray
  /-- A reserved name. -/
  | reserved
  /-- A name that the program chooses. -/
  | identifier
  /-- A comment, which no reader of texts produces. -/
  | comment
  /-- A character that begins no other token. -/
  | illegal
  /-- The end of the text. -/
  | endOfInput
  deriving DecidableEq, Repr

namespace TokenKind

/-- Every kind, in the order of declaration. -/
def all : List TokenKind :=
  [asWord, defineWord, fromWord, generateWord, whereWord, withWord, leftParen, rightParen, comma,
    colon, reference, assign, add, subtract, multiply, rightArrow, integer, text, bytes, typeName,
    typeArray, reserved, identifier, comment, illegal, endOfInput]

/-- The name that messages and dumps give a kind. -/
def name : TokenKind → Text
  | asWord => "As"
  | defineWord => "Define"
  | fromWord => "From"
  | generateWord => "Generate"
  | whereWord => "Where"
  | withWord => "With"
  | leftParen => "LeftParen"
  | rightParen => "RightParen"
  | comma => "Comma"
  | colon => "Colon"
  | reference => "Reference"
  | assign => "Assign"
  | add => "Add"
  | subtract => "Subtract"
  | multiply => "Multiply"
  | rightArrow => "RightArrow"
  | integer => "IntegerLiteral"
  | text => "StringLiteral"
  | bytes => "Bytes"
  | typeName => "Type"
  | typeArray => "TypeArray"
  | reserved => "ReservedIdent"
  | identifier => "Ident"
  | comment => "Comment"
  | illegal => "Illegal"
  | endOfInput => "Eof"

/-- The kind of a name. -/
def ofName? (name : Text) : Option TokenKind :=
  all.find? fun kind => kind.name = name

/-- No kind is left out. -/
theorem mem_all (kind : TokenKind) : kind ∈ all := by
  cases kind <;> decide

end TokenKind

/-- The value of a token. -/
inductive TokenValue where
  /-- No value. -/
  | none
  /-- A text. -/
  | text (text : Text)
  /-- A number. -/
  | integer (value : Int)
  /-- A sequence of bytes. -/
  | bytes (bytes : List UInt8)
  /-- A name with a size. -/
  | sized (name : Text) (size : Int)
  deriving DecidableEq, Repr

/-- The form in which a dump shows a value; nothing for no value. -/
def TokenValue.inspect? : TokenValue → Option Text
  | none => .none
  | text s => some (Text.quote s)
  | integer n => some (Text.decimal n)
  | bytes bs => some (Text.quoteBytes bs)
  | sized name size => some (Text.tuple [Text.quote name, Text.decimal size])

/-- A word of the language. -/
structure Token where
  /-- The kind of the token. -/
  kind : TokenKind
  /-- The value of the token. -/
  value : TokenValue := .none
  /-- Where the token was read from. -/
  span : Option Span := none
  deriving DecidableEq, Repr

namespace Token

/-- Whether two tokens have the same kind and value, wherever they stand. -/
def agrees (a b : Token) : Bool :=
  a.kind = b.kind && a.value = b.value

/-- The form in which messages and dumps show a token. -/
def inspect (t : Token) : Text :=
  match t.value.inspect? with
  | none => "Token." ++ t.kind.name
  | some value => "Token." ++ t.kind.name ++ "(" ++ value ++ ")"

/-- Tokens agree if they have the same kind and the same value. -/
theorem agrees_iff {a b : Token} : a.agrees b ↔ a.kind = b.kind ∧ a.value = b.value := by
  simp [agrees]

end Token

end ByteLayout
