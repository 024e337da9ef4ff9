import ByteLayout.Program.Statement

/-!
# Statement forms

The forms in which a layout text states things. A form stands for one statement or several: a field
with attributes behind an arrow is a field, its selection and an update for each attribute. The
statements of a program are those of its forms, in order.
-/

namespace ByteLayout

/-- An attribute with its argument. -/
structure Clause where
  /-- The name of the attribute. -/
  attr : Text
  /-- The argument, or several as a group. -/
  argument : Expr
  deriving DecidableEq, Repr

/-- The statement of a clause. -/
def Clause.statement (c : Clause) : Statement :=
  .updateField c.attr c.argument

/-- The clause of a statement, if it has one. -/
def Clause.ofStatement? : Statement → Option Clause
  | .updateField attr argument => some ⟨attr, argument⟩
  | _ => none

@[simp] theorem Clause.ofStatement?_statement (c : Clause) :
    Clause.ofStatement? c.statement = some c := rfl

/-- What a layout text states at once. -/
inductive Form where
  /-- `DEFINE name` -/
  | group (name : Text)
  /-- `GENERATE name WITH` -/
  | generator (name : Text)
  /-- `kind AS name`, where the name may be missing. -/
  | field (kind : Text) (name : Option Text)
  /-- `kind AS name -> A(x), B(y)` -/
  | fieldWith (kind name : Text) (clauses : List Clause)
  /-- `literal AS name`, where the name may be missing. -/
  | constant (literal : Literal) (name : Option Text)
  /-- `WHERE` -/
  | fieldsSection
  /-- `name -> A(x), B(y)` -/
  | update (name : Text) (clauses : List Clause)
  /-- `name = value` -/
  | parameter (name : Text) (value : Expr)
  deriving DecidableEq, Repr

namespace Form

/-- The statements of a form. -/
def statements : Form → List Statement
  | group name => [.startGroup name]
  | generator name => [.startGenerator name]
  | field kind name => [.variableField kind name]
  | fieldWith kind name clauses =>
    .variableField kind (some name) :: .selectField name :: clauses.map Clause.statement
  | constant literal name => [.constantField literal name]
  | fieldsSection => [.startFieldsSection]
  | update name clauses => .selectField name :: clauses.map Clause.statement
  | parameter name value => [.setParameter name value]

end Form

/-- The program of some forms: their statements in order, and the end of the program. -/
def Program.ofForms (forms : List Form) : Program :=
  ⟨forms.flatMap Form.statements ++ [.run]⟩

end ByteLayout
