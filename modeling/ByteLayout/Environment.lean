import ByteLayout.Field.Group
import ByteLayout.Generator

/-!
# Environments

What has been read of a program so far: its groups in the order of declaration, its generator, and
the group and the field that further statements go to. Groups are kept under a key, which is their
name for every group that `createGroup` makes. An operation either gives a new environment or says
why there is none.

In place, the operations assign one member after the other, and a group is edited where it stands
under its key. `Environment.perform` is what a statement does to an environment.
-/

namespace ByteLayout

/-- What has been read of a program so far. -/
structure Environment where
  /-- The groups by key, in order of declaration. -/
  groups : List (Text × Group) := []
  /-- The generator. -/
  generator : Option Generator := none
  /-- The key of the group that fields are added to. -/
  currentGroup : Option Text := none
  /-- The name of the field that attributes go to. -/
  currentField : Option Text := none
  deriving DecidableEq, Repr

/-- Why an operation on an environment fails. -/
inductive EnvironmentError where
  /-- The program is refused. -/
  | problem (p : Problem)
  /-- A text or a number of the program cannot be written. -/
  | unwritable (e : Text.Unwritable)
  /-- The key of the current group belongs to no group. -/
  | danglingGroup (key : Text)
  deriving DecidableEq, Repr

namespace EnvironmentError

/-- The error of an attribute or a parameter that is not set. -/
def ofUpdate : UpdateError → EnvironmentError
  | .problem p => problem p
  | .unwritable e => unwritable e

/-- The text of the error. -/
def message : EnvironmentError → Text
  | problem p => p.message
  | unwritable e => e.message
  | danglingGroup key => Text.quote key

variable {e : UpdateError} {key : Text}

/-- A problem of an update stays the problem that it is. -/
@[simp] theorem ofUpdate_eq_problem {p : Problem} : ofUpdate e = problem p ↔ e = .problem p := by
  cases e <;> simp [ofUpdate]

/-- What an update cannot write stays what it is. -/
@[simp] theorem ofUpdate_eq_unwritable {e' : Text.Unwritable} :
    ofUpdate e = unwritable e' ↔ e = .unwritable e' := by
  cases e <;> simp [ofUpdate]

/-- No update fails for a missing group. -/
@[simp, grind .] theorem ofUpdate_ne_danglingGroup : ofUpdate e ≠ danglingGroup key := by
  cases e <;> nofun

end EnvironmentError

namespace Environment

/-! ## Looking up -/

/-- The group of a key. -/
def group? (env : Environment) (key : Text) : Option Group :=
  (env.groups.find? fun entry => entry.1 = key).map (·.2)

/-- The group of a key, which has to be there. -/
def group (env : Environment) (key : Text) : Except Problem Group :=
  match env.group? key with
  | some g => .ok g
  | none => .error (.groupMissing key)

/-- The generator, which has to be there. -/
def getGenerator (env : Environment) : Except Problem Generator :=
  match env.generator with
  | some g => .ok g
  | none => .error .generatorMissing

/-- The generator and the group that it emits. -/
def target (env : Environment) : Except Problem (Generator × Group) :=
  match env.getGenerator with
  | .error p => .error p
  | .ok generator => (env.group generator.group).map fun g => (generator, g)

/-- Checks that there is something to generate from. -/
def validate (env : Environment) : Except Problem Unit :=
  env.target.map fun _ => ()

/-- The key of the current group and the group itself. -/
def current (env : Environment) : Except EnvironmentError (Text × Group) :=
  match env.currentGroup with
  | none => .error (.problem .defineRequired)
  | some key =>
    match env.group? key with
    | some g => .ok (key, g)
    | none => .error (.danglingGroup key)

/-! ## Building -/

/-- Puts a group under a key: in the place of the one that is there, or else at the end. -/
def putGroup (key : Text) (g : Group) : List (Text × Group) → List (Text × Group)
  | [] => [(key, g)]
  | entry :: rest => if entry.1 = key then (key, g) :: rest else entry :: putGroup key g rest

/-- Begins a group, which becomes the current one. -/
def createGroup (env : Environment) (name : Text) : Except EnvironmentError Environment :=
  match env.group? name with
  | some _ => .error (.problem (.duplicateGroup name))
  | none =>
    .ok { env with
          groups := env.groups ++ [(name, { name })]
          currentGroup := some name
          currentField := none }

/-- Begins the generator of a group. -/
def createGenerator (env : Environment) (name : Text) : Except EnvironmentError Environment :=
  match env.generator with
  | some _ => .error (.problem .singleGenerate)
  | none => .ok { env with generator := some { group := name } }

/-- Adds a field to the current group. -/
def createField (env : Environment) (d : FieldDefinition) (name : Option Text) :
    Except EnvironmentError Environment :=
  match env.current with
  | .error e => .error e
  | .ok (key, g) =>
    match g.addField ⟨d, name⟩ with
    | .error p => .error (.problem p)
    | .ok g => .ok { env with groups := putGroup key g env.groups }

/-- Selects a field of the current group. -/
def useField (env : Environment) (name : Text) : Except EnvironmentError Environment :=
  match env.current with
  | .error e => .error e
  | .ok (_, g) =>
    match g.find? name with
    | none => .error (.problem (.fieldNotFound name g.name))
    | some _ => .ok { env with currentField := some name }

/-- Sets an attribute of the selected field. -/
def updateField (env : Environment) (attr : Text) (argument : Expr) :
    Except EnvironmentError Environment :=
  match env.currentField with
  | none => .error (.problem (.noCurrentField attr))
  | some name =>
    match env.current with
    | .error e => .error e
    | .ok (key, g) =>
      match g.updateField name attr argument with
      | .error e => .error (.ofUpdate e)
      | .ok g => .ok { env with groups := putGroup key g env.groups }

/-- Sets a parameter of the generator. -/
def setParameter (env : Environment) (name : Text) (value : Expr) :
    Except EnvironmentError Environment :=
  match env.getGenerator with
  | .error p => .error (.problem p)
  | .ok g =>
    match g.update name value with
    | .error e => .error (.ofUpdate e)
    | .ok g => .ok { env with generator := some g }

/-- Forgets the current group and the selected field. -/
def clearCurrent (env : Environment) : Environment :=
  { env with currentGroup := none, currentField := none }

/-! ## In place -/

/-- Begins a group, which becomes the current one. -/
def beginGroup (name : Text) : Edit Environment EnvironmentError Unit := do
  match (← get).group? name with
  | some _ => throw (.problem (.duplicateGroup name))
  | none =>
    modify fun env => { env with groups := env.groups ++ [(name, { name })] }
    modify ({ · with currentGroup := some name })
    modify ({ · with currentField := none })

/-- Begins the generator of a group. -/
def beginGenerator (name : Text) : Edit Environment EnvironmentError Unit := do
  match (← get).generator with
  | some _ => throw (.problem .singleGenerate)
  | none => modify ({ · with generator := some { group := name } })

/-- Edits the current group. -/
def editGroup (x : Edit Group EnvironmentError Unit) : Edit Environment EnvironmentError Unit := do
  let (key, g) ← (← get).current
  Edit.ofPart g (fun g env => { env with groups := putGroup key g env.groups }) x

/-- Appends a field to the current group, if its definition can be made. -/
def appendField (d : Except Problem FieldDefinition) (name : Option Text) :
    Edit Environment EnvironmentError Unit := do
  let d ← d.mapError EnvironmentError.problem
  editGroup ((Group.append ⟨d, name⟩).mapError .problem)

/-- Selects a field of the current group. -/
def selectField (name : Text) : Edit Environment EnvironmentError Unit := do
  let (_, g) ← (← get).current
  match g.find? name with
  | none => throw (.problem (.fieldNotFound name g.name))
  | some _ => modify ({ · with currentField := some name })

/-- Assigns an attribute of the selected field. -/
def assignAttribute (attr : Text) (argument : Expr) :
    Edit Environment EnvironmentError Unit := do
  match (← get).currentField with
  | none => throw (.problem (.noCurrentField attr))
  | some name => editGroup ((Group.assign name attr argument).mapError .ofUpdate)

/-- Assigns a parameter of the generator. -/
def assignParameter (name : Text) (value : Expr) : Edit Environment EnvironmentError Unit := do
  let g ← (← get).getGenerator.mapError EnvironmentError.problem
  Edit.ofPart g (fun g env => { env with generator := some g })
    ((Generator.assign name value).mapError .ofUpdate)

/-- What a statement does to an environment. -/
def perform : Statement → Edit Environment EnvironmentError Unit
  | .startGroup name => beginGroup name
  | .startGenerator name => beginGenerator name
  | .variableField kind name => appendField (FieldDefinition.ofTypeName kind) name
  | .constantField literal name => appendField (FieldDefinition.ofLiteral literal) name
  | .selectField name => selectField name
  | .updateField attr argument => assignAttribute attr argument
  | .setParameter name value => assignParameter name value
  | .startFieldsSection | .run => pure ()

end Environment

end ByteLayout
