import ByteLayout.Text.Cursor
import ByteLayout.Token.Lexeme

/-!
# Reading tokens

A text as its tokens. Blanks separate tokens, a `#` begins a comment that ends before the next line
feed or carriage return, and everything else is lexemes, one after the other. The tokens end with
one token for the end of the text. Every token carries the span of its lexeme.

`Cursor.lexeme?` and `Cursor.token` read a single token at a place of a text.
-/

namespace ByteLayout

/-- The token of a lexeme at an offset. -/
def Lexeme.token (lexeme : Lexeme) (offset : Nat) : Token :=
  { kind := lexeme.kind
    value := lexeme.value
    span := some { start := offset, stop := offset + lexeme.size } }

/-- The token for the end of a text of this length. -/
def Token.endAt (length : Nat) : Token :=
  { kind := .endOfInput, span := some { start := length, stop := length } }

/-- The characters of a comment after its `#`. -/
def commentBody (text : List CodePoint) : List CodePoint :=
  text.takeWhile fun c => c != '\n' && c != '\r'

/-- The tokens of a text that begins at an offset, behind those in `read`, which are in reverse
order. -/
def tokensFrom (offset : Nat) (read : List Token) (source : List CodePoint) :
    Except DigitLimit (List Token) :=
  match source with
  | [] => .ok (Token.endAt offset :: read).reverse
  | c :: rest =>
    if Lexeme.isBlank c then tokensFrom (offset + 1) read rest
    else if c = '#' then
      let comment := commentBody rest
      tokensFrom (offset + 1 + comment.length) read (rest.drop comment.length)
    else
      match lexemeAt c rest with
      | .error e => .error e
      | .ok lexeme =>
        tokensFrom (offset + lexeme.size) (lexeme.token offset :: read)
          ((c :: rest).drop lexeme.size)
termination_by source.length
decreasing_by
  · exact Nat.lt_succ_self _
  · simp only [List.length_drop, List.length_cons]
    omega
  · have := lexeme.size_pos
    simp only [List.length_drop, List.length_cons]
    omega

/-- The tokens of a text. -/
def lex (source : Text) : Except DigitLimit (List Token) :=
  tokensFrom 0 [] source.toList

/-- Why no token can be read at a place. -/
inductive LexError where
  /-- A decimal run is too long. -/
  | digitLimit (e : DigitLimit)
  /-- No character is left at this offset. -/
  | nothingLeft (offset : Nat)
  deriving DecidableEq, Repr

/-- The text of the error. -/
def LexError.message : LexError → Text
  | digitLimit e => e.message
  | nothingLeft offset => "no lexer rule matched at position " ++ Text.decimal offset

namespace Text.Cursor

/-- The token of one class at the cursor, and the cursor after it. -/
def lexeme? (c : Cursor) (cls : TokenClass) : Except DigitLimit (Option (Token × Cursor)) :=
  (cls.lexeme? c.rest).map fun found =>
    found.map fun lexeme => (lexeme.token c.position, c.advance lexeme.size)

/-- The token at the cursor, and the cursor after it. Blanks and comments are not skipped. -/
def token (c : Cursor) : Except LexError (Token × Cursor) :=
  match c.rest with
  | [] => .error (.nothingLeft c.position)
  | x :: rest =>
    match lexemeAt x rest with
    | .error e => .error (.digitLimit e)
    | .ok lexeme => .ok (lexeme.token c.position, c.advance lexeme.size)

end Text.Cursor

end ByteLayout
