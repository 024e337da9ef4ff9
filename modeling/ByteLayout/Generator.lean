import ByteLayout.Edit
import ByteLayout.Program.Argument
import ByteLayout.Text.Case

/-!
# Generators

What a program says about its output: the group that is emitted, bounds for the number of bytes and
a terminator. `OUT_MIN` and `OUT_MAX` take a number that is not negative, and the last assignment
counts. `TERM` takes a literal, and every assignment adds its bytes at the end of the terminator; a
text that has no bytes adds nothing and is an error.
The names of parameters are matched without regard to case. `Generator.assign` sets a parameter in
place.
-/

namespace ByteLayout

/-- What a program says about its output. -/
structure Generator where
  /-- The name of the group that is emitted. -/
  group : Text
  /-- The least number of bytes, which output is not filled up to. -/
  outMin : Int := 0
  /-- The greatest number of bytes, which output is cut at. -/
  outMax : Int := 4096
  /-- The bytes that end a message. -/
  terminator : List UInt8 := []
  deriving DecidableEq, Repr

/-- The parameters of a generator. -/
inductive Parameter where
  /-- The least number of bytes. -/
  | outMin
  /-- The greatest number of bytes. -/
  | outMax
  /-- The terminator. -/
  | terminator
  deriving DecidableEq, Repr

namespace Parameter

/-- The name of a parameter, in capitals. -/
def name : Parameter → Text
  | outMin => "OUT_MIN"
  | outMax => "OUT_MAX"
  | terminator => "TERM"

/-- The parameter of a name. -/
def ofName? (name : Text) : Option Parameter :=
  [outMin, outMax, terminator].find? fun p => p.name = Text.capitals name

end Parameter

/-- The byte of a reserved name. -/
def reservedByte? (name : Text) : Option UInt8 :=
  let name := Text.capitals name
  if name = "NULL" then some 0x00
  else if name = "LF" then some 0x0A
  else if name = "RF" then some 0x0D
  else none

namespace Generator

/-- The number that a bound on the output is set to. -/
def bound (p : Parameter) : Expr → Except UpdateError Int
  | .literal (.integer n) =>
    if n < 0 then .error (.problem (.invalidParameterValue p.name "value < 0 is not allowed"))
    else .ok n
  | _ => .error (.problem (.invalidParameterValue p.name "expected an integer"))

/-- The bytes that a literal adds to a terminator. -/
def terminatorBytes : Expr → Except UpdateError (List UInt8)
  | .group _ => .error (.problem (.invalidParameterValue "TERM" "expected a single literal"))
  | .literal (.integer n) =>
    if 0 ≤ n ∧ n ≤ 0xFF then .ok [UInt8.ofNat n.toNat]
    else .error (.problem (.invalidParameterValue "TERM" "Decimal ASCII value expected"))
  | .literal (.text s) => (Text.utf8 s).mapError .unwritable
  | .literal (.bytes bs) => .ok bs
  | .literal (.reserved name) =>
    match reservedByte? name with
    | some b => .ok [b]
    | none =>
      .error (.problem
        (.invalidParameterValue "TERM" ("unsupported reserved literal (" ++ name ++ ")")))

/-- Adds the bytes of a literal at the end of the terminator. -/
def addTerminator (g : Generator) (value : Expr) : Except UpdateError Generator :=
  (terminatorBytes value).map fun bs => { g with terminator := g.terminator ++ bs }

/-- Sets a parameter. -/
def update (g : Generator) (name : Text) (value : Expr) : Except UpdateError Generator :=
  match Parameter.ofName? name with
  | some .outMin => (bound .outMin value).map fun n => { g with outMin := n }
  | some .outMax => (bound .outMax value).map fun n => { g with outMax := n }
  | some .terminator => g.addTerminator value
  | none => .error (.problem (.unsupportedParameter name))

/-! ## In place -/

/-- Appends the bytes of a literal to the terminator. -/
def appendTerminator (value : Expr) : Edit Generator UpdateError Unit := do
  let bs ← terminatorBytes value
  modify fun g => { g with terminator := g.terminator ++ bs }

/-- Assigns a parameter. -/
def assign (name : Text) (value : Expr) : Edit Generator UpdateError Unit :=
  match Parameter.ofName? name with
  | some .outMin => do
    let n ← bound .outMin value
    modify ({ · with outMin := n })
  | some .outMax => do
    let n ← bound .outMax value
    modify ({ · with outMax := n })
  | some .terminator => appendTerminator value
  | none => throw (.problem (.unsupportedParameter name))

end Generator

end ByteLayout
