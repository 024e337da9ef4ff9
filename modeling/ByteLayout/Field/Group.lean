import ByteLayout.Field.Attribute

/-!
# Groups

A group is a named list of fields in the order in which they are emitted. Fields may have names; a
name stands for the first field that bears it, and `addField` lets no second field take it. In
place, a field is appended to the group, and an attribute is assigned to the definition where it
stands.
-/

namespace ByteLayout

/-- A definition with the name that it is addressed by. -/
structure Field where
  /-- What the field holds. -/
  definition : FieldDefinition
  /-- The name of the field. -/
  name : Option Text := none
  deriving DecidableEq, Repr

/-- A named list of fields. -/
structure Group where
  /-- The name of the group. -/
  name : Text
  /-- The fields in order. -/
  fields : List Field := []
  deriving DecidableEq, Repr

namespace Group

/-- The first field of a name. -/
def find? (g : Group) (name : Text) : Option Field :=
  g.fields.find? fun f => f.name = some name

/-- Adds a field at the end, unless its name is taken. -/
def addField (g : Group) (f : Field) : Except Problem Group :=
  match f.name with
  | none => .ok { g with fields := g.fields ++ [f] }
  | some name =>
    match g.find? name with
    | some _ => .error (.duplicateAlias name g.name)
    | none => .ok { g with fields := g.fields ++ [f] }

/-- Puts a definition in the place of that of the first field of a name. -/
def setDefinition (name : Text) (d : FieldDefinition) : List Field → List Field
  | [] => []
  | f :: fs =>
    if f.name = some name then { f with definition := d } :: fs else f :: setDefinition name d fs

/-- Sets an attribute of the first field of a name. -/
def updateField (g : Group) (name attr : Text) (argument : Expr) : Except UpdateError Group :=
  match g.find? name with
  | none => .error (.problem (.fieldNotFound name g.name))
  | some f =>
    (f.definition.update attr argument).map fun d =>
      { g with fields := setDefinition name d g.fields }

/-! ## In place -/

/-- Appends a field, unless its name is taken. -/
def append (f : Field) : Edit Group Problem Unit := do
  let g ← get
  if let some name := f.name then
    if (g.find? name).isSome then throw (.duplicateAlias name g.name)
  modify ({ · with fields := g.fields ++ [f] })

/-- Assigns an attribute of the first field of a name. -/
def assign (name attr : Text) (argument : Expr) : Edit Group UpdateError Unit := do
  let g ← get
  match g.find? name with
  | none => throw (.problem (.fieldNotFound name g.name))
  | some f =>
    Edit.ofPart f.definition (fun d g => { g with fields := setDefinition name d g.fields })
      (FieldDefinition.assign attr argument)

end Group

end ByteLayout
