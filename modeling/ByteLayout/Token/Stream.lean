import ByteLayout.Sequence
import ByteLayout.Token

/-!
# Token streams

A place in a sequence of tokens from which a program is read. A stream ends at the first token of
kind `endOfInput`, or where no token is left. Members are counted from the place, or from the end
of the sequence for positions below zero; looking aside with `peek` counts from the place in both
directions.
-/

namespace ByteLayout

/-- A place in a sequence of tokens. -/
structure TokenStream where
  /-- The whole sequence. -/
  tokens : List Token
  /-- The offset of the next token. -/
  position : Nat := 0
  deriving DecidableEq, Repr

/-- Why a stream has no such token. -/
inductive StreamError where
  /-- No token is left at this offset. -/
  | exhausted (offset : Nat)
  /-- The position lies outside the sequence. -/
  | outOfRange
  /-- A slice with a step of zero. -/
  | zeroStep
  deriving DecidableEq, Repr

/-- The text of the error. -/
def StreamError.message : StreamError → Text
  | exhausted offset => "Unexpected end of tokens at position " ++ Text.decimal offset
  | outOfRange => "tuple index out of range"
  | zeroStep => "slice step cannot be zero"

namespace TokenStream

/-- The tokens that are still to be read. -/
def remaining (s : TokenStream) : List Token :=
  s.tokens.drop s.position

/-- Whether no token is left. -/
def isExhausted (s : TokenStream) : Bool :=
  s.tokens.length ≤ s.position

/-- Whether the stream is at its end. -/
def isAtEnd (s : TokenStream) : Bool :=
  match s.remaining with
  | [] => true
  | t :: _ => t.kind = .endOfInput

/-- The next token. -/
def current (s : TokenStream) : Except StreamError Token :=
  match s.remaining with
  | [] => .error (.exhausted s.position)
  | t :: _ => .ok t

/-- The token at a distance from the place: nothing beyond the end, and counted on from the end of
the sequence when the distance leads before its beginning. -/
def peek (s : TokenStream) (distance : Int := 0) : Except StreamError (Option Token) :=
  let target := s.position + distance
  if s.tokens.length ≤ target then .ok none
  else match Sequence.at? s.tokens target with
    | some t => .ok (some t)
    | none => .error .outOfRange

/-- The stream after `count` tokens, or at the end of the sequence. -/
def advance (s : TokenStream) (count : Nat := 1) : TokenStream :=
  { s with position := min (s.position + count) s.tokens.length }

/-- The stream after the next token, if that token is of a kind. -/
def expect? (s : TokenStream) (kind : TokenKind) : Option TokenStream :=
  match s.remaining with
  | [] => none
  | t :: _ => if t.kind = kind then some s.advance else none

/-- The number of tokens that are left. -/
def length (s : TokenStream) : Nat :=
  s.tokens.length - s.position

/-- The token at a signed position among those that are left. -/
def get (s : TokenStream) (position : Int) : Except StreamError Token :=
  match Sequence.at? s.remaining position with
  | some t => .ok t
  | none => .error .outOfRange

/-- A slice of the tokens that are left. -/
def slice (s : TokenStream) (slice : Sequence.Slice) : Except StreamError (List Token) :=
  match Sequence.slice? s.remaining slice with
  | some ts => .ok ts
  | none => .error .zeroStep

/-- Runs a reader of tokens at the place: its value, and the stream after the tokens it took. -/
def read? {α : Type} (s : TokenStream) (reader : List Token → Option (α × List Token)) :
    Option (α × TokenStream) :=
  (reader s.remaining).map fun (value, rest) =>
    (value, { s with position := s.position + (s.remaining.length - rest.length) })

/-- A stream is as long as the tokens that it has left. -/
@[simp] theorem length_remaining (s : TokenStream) : s.remaining.length = s.length := by
  simp [remaining, length]

/-- A stream is exhausted if no token is left. -/
theorem isExhausted_iff (s : TokenStream) : s.isExhausted ↔ s.remaining = [] := by
  simp [isExhausted, remaining]

end TokenStream

end ByteLayout
