import ByteLayout.Text.Quoted

/-!
# Programs

What a layout text says, as a flat list of statements. Groups, fields and the generator are opened
by one statement each, and the statements after it fill them in. Expressions are literals and
groups of expressions; nothing is computed.

The `inspect` functions show every part on one line, with all its members by name.
-/

namespace ByteLayout

/-! ## Literals and expressions -/

/-- A constant. -/
inductive Literal where
  /-- An integer. -/
  | integer (value : Int)
  /-- A text. -/
  | text (text : Text)
  /-- A sequence of bytes. -/
  | bytes (bytes : List UInt8)
  /-- A reserved name, as it was spelled. -/
  | reserved (name : Text)
  deriving DecidableEq, Repr

/-- An argument of an attribute or the value of a parameter. -/
inductive Expr where
  /-- A single literal. -/
  | literal (literal : Literal)
  /-- Several arguments together. -/
  | group (items : List Expr)
  deriving Repr

namespace Expr

mutual

/-- Decides whether two expressions are the same. -/
def decEq : (a b : Expr) → Decidable (a = b)
  | literal l, literal m =>
    if h : l = m then isTrue (h ▸ rfl) else isFalse fun e => h (Expr.literal.inj e)
  | literal _, group _ => isFalse nofun
  | group _, literal _ => isFalse nofun
  | group xs, group ys =>
    match decEqList xs ys with
    | isTrue h => isTrue (h ▸ rfl)
    | isFalse h => isFalse fun e => h (Expr.group.inj e)

/-- Decides whether two lists of expressions are the same. -/
def decEqList : (xs ys : List Expr) → Decidable (xs = ys)
  | [], [] => isTrue rfl
  | [], _ :: _ => isFalse nofun
  | _ :: _, [] => isFalse nofun
  | x :: xs, y :: ys =>
    match decEq x y, decEqList xs ys with
    | isTrue h, isTrue hs => isTrue (h ▸ hs ▸ rfl)
    | isFalse h, _ => isFalse fun e => h (List.cons.inj e).1
    | _, isFalse hs => isFalse fun e => hs (List.cons.inj e).2

end

instance : DecidableEq Expr := decEq

end Expr

/-! ## Statements -/

/-- One step of a layout program. -/
inductive Statement where
  /-- Begins a group of fields. -/
  | startGroup (name : Text)
  /-- Begins the generator of a group. -/
  | startGenerator (name : Text)
  /-- Adds a field whose content is random. -/
  | variableField (kind : Text) (name : Option Text)
  /-- Adds a field whose content is constant. -/
  | constantField (literal : Literal) (name : Option Text)
  /-- Selects the field that attributes go to. -/
  | selectField (name : Text)
  /-- Sets an attribute of the selected field. -/
  | updateField (attr : Text) (argument : Expr)
  /-- Begins the attributes of fields that are already there. -/
  | startFieldsSection
  /-- Sets a parameter of the generator. -/
  | setParameter (name : Text) (value : Expr)
  /-- Ends the program. -/
  | run
  deriving DecidableEq, Repr

/-- Statements in the order of the text. -/
structure Program where
  /-- The statements. -/
  statements : List Statement
  deriving DecidableEq, Repr

/-! ## Inspection -/

/-- The form in which a dump shows a node: its label and its members by name. -/
def inspectNode (label : Text) (members : List (Text × Text)) : Text :=
  let shown := members.map fun (name, value) => (name ++ "=" ++ value : Text)
  label ++ "(" ++ Text.intercalate ", " shown ++ ")"

/-- The form in which a dump shows a name that may be missing. -/
def inspectName? (name : Option Text) : Text :=
  (name.map Text.quote).getD "None"

/-- The form in which a dump shows a literal. -/
def Literal.inspect : Literal → Text
  | integer n => inspectNode "IntegerLiteral" [("value", Text.decimal n)]
  | text s => inspectNode "StringLiteral" [("value", Text.quote s)]
  | bytes bs => inspectNode "BytesLiteral" [("value", Text.quoteBytes bs)]
  | reserved name => inspectNode "ReservedLiteral" [("name", Text.quote name)]

namespace Expr

mutual

/-- The form in which a dump shows an expression. -/
def inspect : Expr → Text
  | literal l => inspectNode "LiteralExpr" [("literal", l.inspect)]
  | group items => inspectNode "GroupExpr" [("items", Text.tuple (inspectList items))]

/-- The forms in which a dump shows the members of a group. -/
def inspectList : List Expr → List Text
  | [] => []
  | e :: es => e.inspect :: inspectList es

end

end Expr

namespace Statement

/-- The name that messages and dumps give a statement. -/
def label : Statement → Text
  | startGroup _ => "StartGroupDefinition"
  | startGenerator _ => "StartGeneratorDefinition"
  | variableField _ _ => "DefineVariableField"
  | constantField _ _ => "DefineConstField"
  | selectField _ => "MakeCurrentField"
  | updateField _ _ => "UpdateField"
  | startFieldsSection => "StartFieldsSection"
  | setParameter _ _ => "UpdateParam"
  | run => "Run"

/-- The members of a statement as a dump shows them. -/
def members : Statement → List (Text × Text)
  | startGroup name | startGenerator name | selectField name => [("name", Text.quote name)]
  | variableField kind name => [("kind", Text.quote kind), ("alias", inspectName? name)]
  | constantField literal name => [("literal", literal.inspect), ("alias", inspectName? name)]
  | updateField attr argument => [("attribute", Text.quote attr), ("expr", argument.inspect)]
  | setParameter name value => [("name", Text.quote name), ("expr", value.inspect)]
  | startFieldsSection | run => []

/-- The form in which a dump shows a statement. -/
def inspect (s : Statement) : Text :=
  inspectNode s.label s.members

end Statement

/-- The form in which a dump shows a program. -/
def Program.inspect (p : Program) : Text :=
  inspectNode "Program" [("statements", Text.tuple (p.statements.map Statement.inspect))]

end ByteLayout
