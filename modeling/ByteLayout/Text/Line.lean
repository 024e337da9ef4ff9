import ByteLayout.Text

/-!
# Lines

Lines of a text. A line feed ends a line, so does a carriage return that no line feed follows, and
the two in a row end one line together. `LineIndex` keeps the offsets at which lines begin, and its
`place` finds an offset among them by halving: the line that it is on and its column there, both
counted from one.

`normaliseNewlines` brings the three line ends to a single line feed.
-/

namespace ByteLayout.Text

/-- Whether a character ends a line, given the characters after it. -/
def endsLine (c : CodePoint) (after : List CodePoint) : Bool :=
  c = '\n' || (c = '\r' && after.head? != some (scalar '\n'))

/-- The offsets at which the lines of a text begin that begins at offset `i`, behind those in
`found`. -/
def lineStartsFrom (i : Nat) (found : Array Nat) : List CodePoint → Array Nat
  | [] => found
  | c :: after =>
    lineStartsFrom (i + 1) (if endsLine c after then found.push (i + 1) else found) after

/-- No line that was found is lost. -/
theorem size_lineStartsFrom (i : Nat) (found : Array Nat) (text : List CodePoint) :
    found.size ≤ (lineStartsFrom i found text).size := by
  fun_induction lineStartsFrom i found text with
  | case1 => exact Nat.le_refl _
  | case2 i found c after ih =>
    refine Nat.le_trans ?_ ih
    split
    · simp
    · exact Nat.le_refl _

/-- Where the lines of a text begin, and its length. -/
structure LineIndex where
  /-- The offsets at which lines begin, in increasing order. -/
  starts : Array Nat
  /-- The number of characters. -/
  length : Nat
  /-- There is a first line. -/
  starts_pos : 0 < starts.size
  deriving DecidableEq, Repr

namespace LineIndex

/-- The index of a text. -/
def ofText (text : List CodePoint) : LineIndex where
  starts := lineStartsFrom 0 #[0] text
  length := text.length
  starts_pos := size_lineStartsFrom 0 #[0] text

/-- An offset moved into the text. -/
def clamp (index : LineIndex) (offset : Int) : Nat :=
  (max 0 (min offset index.length)).toNat

/-- The last of the lines from `left` to `right` that begins at an offset or before, if `left` does.
The lines are halved, and of two in the middle the later one is looked at. -/
def lineBetween (starts : Array Nat) (offset : Nat) (left right : Fin starts.size) :
    Fin starts.size :=
  if _ : left < right then
    let middle : Fin starts.size := ⟨(left + right + 1) / 2, by omega⟩
    if starts[middle] ≤ offset then lineBetween starts offset middle right
    else lineBetween starts offset left ⟨middle - 1, by omega⟩
  else left
termination_by right.val - left.val

/-- The line that an offset of the text is on, counted from zero. -/
def lineAt (index : LineIndex) (offset : Nat) : Fin index.starts.size :=
  have := index.starts_pos
  lineBetween index.starts offset ⟨0, by omega⟩ ⟨index.starts.size - 1, by omega⟩

/-- The line and the column of an offset, which is first moved into the text. -/
def place (index : LineIndex) (offset : Int) : Nat × Nat :=
  let offset := index.clamp offset
  let line := index.lineAt offset
  (line + 1, offset - index.starts[line] + 1)

/-- The line of an offset. -/
def line (index : LineIndex) (offset : Int) : Nat :=
  (index.place offset).1

/-- The column of an offset. -/
def column (index : LineIndex) (offset : Int) : Nat :=
  (index.place offset).2

/-- Lines are counted from one. -/
theorem one_le_line (index : LineIndex) (offset : Int) : 1 ≤ index.line offset :=
  Nat.le_add_left 1 _

/-- So are columns. -/
theorem one_le_column (index : LineIndex) (offset : Int) : 1 ≤ index.column offset :=
  Nat.le_add_left 1 _

end LineIndex

/-- The text with every line end made a line feed, behind the characters in `read`, which are in
reverse order. -/
def normaliseNewlinesFrom (read : List CodePoint) : List CodePoint → List CodePoint
  | [] => read.reverse
  | scalar '\r' :: scalar '\n' :: rest => normaliseNewlinesFrom (scalar '\n' :: read) rest
  | scalar '\r' :: rest => normaliseNewlinesFrom (scalar '\n' :: read) rest
  | c :: rest => normaliseNewlinesFrom (c :: read) rest

/-- A text with every line end made a line feed. -/
def normaliseNewlines (text : List CodePoint) : List CodePoint :=
  normaliseNewlinesFrom [] text

end ByteLayout.Text
