import ByteLayout.Diagnostic.Problem
import ByteLayout.Program.Statement
import ByteLayout.Text.Encoding

/-!
# Arguments

What attributes and parameters read off their arguments. Only literals have a value, so reading one
means to check its shape; `context` is what an error names as the place of the argument. An argument
of the right shape may still hold a text or a number that cannot be written, and `UpdateError` tells
the two failures apart.
-/

namespace ByteLayout

/-- How a message calls a literal: by its kind, or a reserved name by itself. -/
def Literal.describe : Literal → Text
  | integer _ => "integer"
  | text _ => "string"
  | bytes _ => "bytes"
  | reserved name => name

namespace Expr

/-- Whether an expression is a group. -/
def isGroup : Expr → Bool
  | literal _ => false
  | group _ => true

/-- The members of a group, or the expression itself. -/
def items : Expr → List Expr
  | group items => items
  | e => [e]

/-- The literal of an expression that is one. -/
def asLiteral (context : Text) : Expr → Except Problem Literal
  | literal l => .ok l
  | group _ => .error (.groupNotExpected context)

/-- The number of an expression that is an integer. -/
def asInteger (context : Text) (e : Expr) : Except Problem Int :=
  match e.asLiteral context with
  | .error p => .error p
  | .ok (.integer n) => .ok n
  | .ok l => .error (.integerExpected context l.describe)

end Expr

/-- Why an attribute or a parameter is not set. -/
inductive UpdateError where
  /-- It is refused. -/
  | problem (p : Problem)
  /-- A text or a number of the argument cannot be written. -/
  | unwritable (e : Text.Unwritable)
  deriving DecidableEq, Repr

end ByteLayout
