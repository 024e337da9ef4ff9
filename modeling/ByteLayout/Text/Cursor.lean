import ByteLayout.Sequence
import ByteLayout.Text.Numeral

/-!
# Cursors

A place in a text from which it is read forward. A cursor is a value: every move gives a new one, so
a reader that fails keeps the place it began at. Moves stop at the end of the text.
-/

namespace ByteLayout.Text

/-- A place in a text. -/
structure Cursor where
  /-- The whole text. -/
  source : List CodePoint
  /-- The offset of the next character. -/
  position : Nat
  deriving DecidableEq, Repr

/-- No character is left at this offset. -/
structure EndOfText where
  /-- The offset at which a character was asked for. -/
  position : Nat
  deriving DecidableEq, Repr

/-- The text of the error. -/
def EndOfText.message (e : EndOfText) : Text :=
  "Unexpected EOF at position " ++ decimal e.position

namespace Cursor

/-- The characters that are still to be read. -/
def rest (c : Cursor) : List CodePoint :=
  c.source.drop c.position

/-- Whether no character is left. -/
def isAtEnd (c : Cursor) : Bool :=
  c.source.length ≤ c.position

/-- The next character. -/
def current (c : Cursor) : Except EndOfText CodePoint :=
  match c.rest with
  | [] => .error ⟨c.position⟩
  | x :: _ => .ok x

/-- The cursor after `count` characters, or at the end of the text. -/
def advance (c : Cursor) (count : Nat := 1) : Cursor :=
  { c with position := min (c.position + count) c.source.length }

/-- The characters from the cursor to a signed position. -/
def textTo (c : Cursor) (stop : Int) : List CodePoint :=
  Sequence.between c.source c.position stop

/-- Whether the characters that are left begin with a text. A place behind the end begins with none,
not even with the empty one. -/
def startsWith (c : Cursor) (text : List CodePoint) : Bool :=
  c.position ≤ c.source.length && text.isPrefixOf c.rest

/-- The cursor after the next character, if that character is the whole of `text`. -/
def expect? (c : Cursor) (text : List CodePoint) : Option Cursor :=
  match c.rest with
  | [] => none
  | x :: _ => if text = [x] then some c.advance else none

/-- The cursor after all next characters that satisfy a condition. -/
def skipWhile (c : Cursor) (p : CodePoint → Bool) : Cursor :=
  { c with position := c.position + (c.rest.takeWhile p).length }

/-- The cursor at the next line feed or carriage return, or at the end of the text. -/
def skipToLineEnd (c : Cursor) : Cursor :=
  c.skipWhile fun x => x != '\n' && x != '\r'

end Cursor

end ByteLayout.Text
