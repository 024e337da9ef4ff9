import ByteLayout.Program.Form
import ByteLayout.Text.Encoding

/-!
# Writing programs

Programs as text that reads back as the same program. The statements are first gathered into forms:
a selection takes the updates after it, and a field takes a selection of itself that comes right
after it and has updates. Every form is a line; the lines of groups, of the section of fields and
of the generator begin at the margin, all others are indented. The end of a program is not written.

What the language has no words for is refused: updates without a selection and selections without
an update, groups of fewer than two members and groups inside of groups, empty texts and byte
sequences, and texts with a double quote. Nor is there a numeral of too many digits.
-/

namespace ByteLayout

/-- What the language has no words for. -/
inductive WriteError where
  /-- A selection that no update follows. -/
  | selectionWithoutUpdate (name : Text)
  /-- An update that follows no selection. -/
  | updateWithoutSelection (attr : Text)
  /-- A group of fewer than two members. -/
  | shortGroup (context : Text) (size : Nat)
  /-- A group in the place of a literal. -/
  | nestedGroup (context : Text)
  /-- A text that is empty or holds a double quote. -/
  | unquotableText (text : Text)
  /-- A sequence of no bytes. -/
  | emptyBytes
  /-- A number of too many digits. -/
  | unwritable (e : Text.Unwritable)
  deriving DecidableEq, Repr

/-- The text of the error. -/
def WriteError.message : WriteError → Text
  | selectionWithoutUpdate name =>
    "Field '" ++ name ++ "' is selected but no attribute update follows"
  | updateWithoutSelection attr =>
    attr ++ ": attribute update without a preceding field selection"
  | shortGroup context size =>
    context ++ ": argument group needs at least two items, got " ++ Text.decimal size
  | nestedGroup context => context ++ ": nested group expressions cannot be written"
  | unquotableText text =>
    "String literal " ++ Text.quote text ++ " cannot be written between double quotes"
  | emptyBytes => "Empty byte sequence cannot be written"
  | unwritable e => e.message

/-! ## Literals and arguments -/

/-- Bytes as hexadecimal chunks with one space between two. -/
def bytesText (bytes : List UInt8) : Text :=
  Text.intercalate " " (bytes.map fun b => Text.ofList (Text.hexByte b))

/-- A literal as text. -/
def Literal.write : Literal → Except WriteError Text
  | integer n => (Text.writeDecimal n).mapError .unwritable
  | text s =>
    if s = "" ∨ s.toList.contains '"' then .error (.unquotableText s) else .ok ("\"" ++ s ++ "\"")
  | bytes [] => .error .emptyBytes
  | bytes (b :: bs) => .ok ("\x60" ++ bytesText (b :: bs) ++ "\x60")
  | reserved name => .ok name

/-- An expression in the place of a literal; `context` is what an error names. -/
def Expr.writeScalar (context : Text) : Expr → Except WriteError Text
  | literal l => l.write
  | group _ => .error (.nestedGroup context)

/-- An expression as arguments, without the parentheses. -/
def Expr.writeArguments (context : Text) : Expr → Except WriteError Text
  | literal l => l.write
  | group items =>
    if items.length < 2 then .error (.shortGroup context items.length)
    else (items.mapM (writeScalar context)).map (Text.intercalate " " ·)

/-- A clause as text. -/
def Clause.write (c : Clause) : Except WriteError Text :=
  (c.argument.writeArguments c.attr).map fun arguments => c.attr ++ "(" ++ arguments ++ ")"

/-- Clauses as text, with a comma between two. -/
def writeClauses (clauses : List Clause) : Except WriteError Text :=
  (clauses.mapM Clause.write).map (Text.intercalate ", " ·)

/-! ## Lines -/

/-- What stands before a line that is not at the margin. -/
def indent : Text := "    "

/-- A name that may be missing, after `AS`. -/
def writeName (name : Option Text) : Text :=
  match name with
  | none => ""
  | some name => " AS " ++ name

/-- A form as a line, without its end. -/
def Form.write : Form → Except WriteError Text
  | group name => .ok ("DEFINE " ++ name)
  | generator name => .ok ("GENERATE " ++ name ++ " WITH")
  | fieldsSection => .ok "WHERE"
  | field kind name => .ok (indent ++ kind ++ writeName name)
  | fieldWith kind name clauses =>
    (writeClauses clauses).map fun text =>
      indent ++ kind ++ writeName (some name) ++ " -> " ++ text
  | constant literal name => literal.write.map fun text => indent ++ text ++ writeName name
  | update name clauses => (writeClauses clauses).map fun text => indent ++ name ++ " -> " ++ text
  | parameter name value =>
    (value.writeScalar name).map fun text => indent ++ name ++ " = " ++ text

/-! ## Gathering -/

/-- All clauses at the front of some statements, and the statements after them. -/
def leadingClauses (ss : List Statement) : List Clause × List Statement :=
  ((ss.takeWhile fun s => (Clause.ofStatement? s).isSome).filterMap Clause.ofStatement?,
    ss.dropWhile fun s => (Clause.ofStatement? s).isSome)

/-- Behind the first clauses no more statements are left. -/
theorem length_leadingClauses (ss : List Statement) :
    (leadingClauses ss).2.length ≤ ss.length :=
  (List.dropWhile_sublist _).length_le

/-- The clauses, at least one, that go to a field of this name right after it, and the statements
after them. -/
def ownClauses? (name : Text) : List Statement → Option (List Clause × List Statement)
  | .selectField selected :: rest =>
    if selected = name then
      match leadingClauses rest with
      | ([], _) => none
      | (c :: cs, rest) => some (c :: cs, rest)
    else none
  | _ => none

/-- Behind a field's own clauses no more statements are left. -/
theorem length_ownClauses? {name : Text} {ss rest : List Statement} {cs : List Clause}
    (h : ownClauses? name ss = some (cs, rest)) : rest.length ≤ ss.length := by
  unfold ownClauses? at h
  split at h
  · rename_i after
    have hl := length_leadingClauses after
    split at h
    · split at h
      · cases h
      · rename_i heq
        rw [heq] at hl
        cases h
        exact Nat.le_succ_of_le hl
    · cases h
  · cases h

/-- What a statement is gathered into, together with those after it that it takes along: a form, an
error, or nothing for the end of the program. The other statements are left. -/
def gatherNext (s : Statement) (rest : List Statement) :
    Option (Except WriteError Form) × List Statement :=
  match s with
  | .startGroup name => (some (.ok (.group name)), rest)
  | .startGenerator name => (some (.ok (.generator name)), rest)
  | .variableField kind none => (some (.ok (.field kind none)), rest)
  | .variableField kind (some name) =>
    match ownClauses? name rest with
    | some (clauses, after) => (some (.ok (.fieldWith kind name clauses)), after)
    | none => (some (.ok (.field kind (some name))), rest)
  | .constantField literal name => (some (.ok (.constant literal name)), rest)
  | .selectField name =>
    match leadingClauses rest with
    | ([], _) => (some (.error (.selectionWithoutUpdate name)), rest)
    | (c :: cs, after) => (some (.ok (.update name (c :: cs))), after)
  | .updateField attr _ => (some (.error (.updateWithoutSelection attr)), rest)
  | .startFieldsSection => (some (.ok .fieldsSection), rest)
  | .setParameter name value => (some (.ok (.parameter name value)), rest)
  | .run => (none, rest)

/-- Behind a form no more statements are left. -/
theorem length_gatherNext (s : Statement) (rest : List Statement) :
    (gatherNext s rest).2.length ≤ rest.length := by
  cases s with
  | variableField kind name =>
    cases name with
    | none => exact Nat.le_refl _
    | some name =>
      simp only [gatherNext]
      split
      · rename_i h
        exact length_ownClauses? h
      · exact Nat.le_refl _
  | selectField name =>
    have hl := length_leadingClauses rest
    simp only [gatherNext]
    split
    · exact Nat.le_refl _
    · rename_i h
      rwa [h] at hl
  | _ => exact Nat.le_refl _

/-- The forms of some statements in order, with an error for each statement that no form holds,
behind those in `gathered`, which are in reverse order. -/
def gatherFrom (gathered : List (Except WriteError Form)) (ss : List Statement) :
    List (Except WriteError Form) :=
  match ss with
  | [] => gathered.reverse
  | s :: rest =>
    gatherFrom ((gatherNext s rest).1.toList ++ gathered) (gatherNext s rest).2
termination_by ss.length
decreasing_by exact Nat.lt_succ_of_le (length_gatherNext s rest)

/-- The forms of some statements in order, with an error for each statement that no form holds. -/
def gatherForms (ss : List Statement) : List (Except WriteError Form) :=
  gatherFrom [] ss

/-- A program as text, or the first thing in it that the language has no words for. -/
def Program.write (p : Program) : Except WriteError Text :=
  ((gatherForms p.statements).mapM (Except.bind · Form.write)).map fun lines =>
    Text.join (lines.map (· ++ "\n"))

end ByteLayout
