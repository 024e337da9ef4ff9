import ByteLayout.Text.Numeral

/-!
# Spans and locations

Where something stands in a source text. A `Span` is a range of character offsets, a `Location` is a
span together with the line and the column it begins at, both counted from one. `Span.ofBounds` and
`Location.ofBounds` build them from any four numbers and name the first condition that fails.
-/

namespace ByteLayout

/-- A range of character offsets, from `start` up to, and without, `stop`. -/
structure Span where
  /-- The offset of the first character. -/
  start : Nat
  /-- The offset after the last character. -/
  stop : Nat
  /-- A span does not run backwards. -/
  start_le_stop : start ≤ stop := by omega
  deriving DecidableEq, Repr

/-- A span and the place it begins at. -/
structure Location extends Span where
  /-- The line of the first character, counted from one. -/
  line : Nat
  /-- The column of the first character, counted from one. -/
  column : Nat
  /-- Lines count from one. -/
  one_le_line : 1 ≤ line := by omega
  /-- Columns count from one. -/
  one_le_column : 1 ≤ column := by omega
  deriving DecidableEq, Repr

/-- Why four numbers are no span or no location. -/
inductive SpanError where
  /-- The start of a span is negative. -/
  | startOfSpan (start : Int)
  /-- The end of a span is before its start. -/
  | endOfSpan (start stop : Int)
  /-- The start of a location is negative. -/
  | startOfLocation (start : Int)
  /-- The end of a location is before its start. -/
  | endOfLocation (start stop : Int)
  /-- A line below one. -/
  | line (line : Int)
  /-- A column below one. -/
  | column (column : Int)
  deriving DecidableEq, Repr

namespace SpanError

/-- The text of the error. -/
def message : SpanError → Text
  | startOfSpan start => "Span start must be >= 0, got " ++ Text.decimal start
  | endOfSpan start stop =>
    "Span end (" ++ Text.decimal stop ++ ") must be >= start (" ++ Text.decimal start ++ ")"
  | startOfLocation start => "SourceSpan.start must be >= 0, got " ++ Text.decimal start
  | endOfLocation start stop =>
    "SourceSpan.end (" ++ Text.decimal stop ++ ") must be >= start (" ++ Text.decimal start ++ ")"
  | .line n => "SourceSpan.line must be >= 1 (1-indexed), got " ++ Text.decimal n
  | .column n => "SourceSpan.column must be >= 1 (1-indexed), got " ++ Text.decimal n

end SpanError

/-- The span between two numbers, if they bound one. -/
def Span.ofBounds (start stop : Int) : Except SpanError Span :=
  if _ : start < 0 then .error (.startOfSpan start)
  else if _ : stop < start then .error (.endOfSpan start stop)
  else .ok { start := start.toNat, stop := stop.toNat }

/-- The location of four numbers, if they make one. -/
def Location.ofBounds (start stop line column : Int) : Except SpanError Location :=
  if _ : start < 0 then .error (.startOfLocation start)
  else if _ : stop < start then .error (.endOfLocation start stop)
  else if _ : line < 1 then .error (.line line)
  else if _ : column < 1 then .error (.column column)
  else .ok { start := start.toNat, stop := stop.toNat, line := line.toNat, column := column.toNat }

/-- The form in which a dump shows a span. -/
def Span.inspect (s : Span) : Text :=
  "Span(start=" ++ Text.decimal s.start ++ ", end=" ++ Text.decimal s.stop ++ ")"

/-- The form in which a dump shows a location. -/
def Location.inspect (l : Location) : Text :=
  "SourceSpan(start=" ++ Text.decimal l.start ++ ", end=" ++ Text.decimal l.stop ++
    ", line=" ++ Text.decimal l.line ++ ", column=" ++ Text.decimal l.column ++ ")"

end ByteLayout
