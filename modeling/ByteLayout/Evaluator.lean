import ByteLayout.Environment

/-!
# Evaluation

Programs as environments. Statements are taken one by one by an `Evaluator`, which is a stage and
the environment so far; the stage says which statements have a place next:

* `started` takes the beginning of a group;
* `definingFields` takes fields, a selection, a section of fields, a group and a generator;
* `definingFieldAttributes` takes updates, fields, a group and a generator;
* `updatingFieldAttributes` takes selections, updates, a group and a generator;
* `definingGenerator` takes parameters and the end of the program;
* `finished` takes nothing.

`evaluate` takes a whole program and stops at the first statement that is refused.

In place there is one evaluator that every statement changes. `Stage.after` says whether a
statement has a place and which stage comes after it, and `Evaluator.take` takes it;
`Evaluator.traverse` takes a list of statements and goes on after refusals, with whatever a refused
statement left behind.
-/

namespace ByteLayout

/-- How far an evaluation has come. -/
inductive Stage where
  /-- Before the first statement. -/
  | started
  /-- Among the fields of a group. -/
  | definingFields
  /-- After the selection of a field among the fields of a group. -/
  | definingFieldAttributes
  /-- In a section of fields. -/
  | updatingFieldAttributes
  /-- Among the parameters of the generator. -/
  | definingGenerator
  /-- After the last statement. -/
  | finished
  deriving DecidableEq, Repr

/-- How a message calls a stage. -/
def Stage.name : Stage → Text
  | started => "Started"
  | definingFields => "DefiningFields"
  | definingFieldAttributes => "DefiningFieldAttr"
  | updatingFieldAttributes => "UpdatingFieldAttrs"
  | definingGenerator => "DefiningGenerator"
  | finished => "Finished"

/-- An evaluation under way. -/
structure Evaluator where
  /-- How far it has come. -/
  stage : Stage := .started
  /-- What it has read. -/
  env : Environment := {}
  deriving DecidableEq, Repr

namespace Evaluator

/-- The evaluator at a stage. Fields are defined with no field selected, and at the end of the
program nothing is current. -/
def enter (stage : Stage) (env : Environment) : Evaluator :=
  match stage with
  | .definingFields => ⟨stage, { env with currentField := none }⟩
  | .finished => ⟨stage, env.clearCurrent⟩
  | _ => ⟨stage, env⟩

/-- The refusal of a statement that has no place at a stage. -/
def unexpected (stage : Stage) (s : Statement) : EnvironmentError :=
  .problem (.unexpectedStatement s.label stage.name)

/-- Adds a field if its definition can be made. -/
def addField (env : Environment) (d : Except Problem FieldDefinition) (name : Option Text) :
    Except EnvironmentError Environment :=
  match d with
  | .error p => .error (.problem p)
  | .ok d => env.createField d name

/-- What a statement makes of the environment at a stage, and the stage after it. -/
def act (stage : Stage) (env : Environment) (s : Statement) :
    Except EnvironmentError (Stage × Environment) :=
  match stage, s with
  | .started, .startGroup name => (env.createGroup name).map (.definingFields, ·)
  | .started, _ => .error (.problem .defineRequired)
  | .finished, s => .error (unexpected .finished s)
  | .definingFields, .variableField kind name
  | .definingFieldAttributes, .variableField kind name =>
    (addField env (FieldDefinition.ofTypeName kind) name).map (.definingFields, ·)
  | .definingFields, .constantField literal name
  | .definingFieldAttributes, .constantField literal name =>
    (addField env (FieldDefinition.ofLiteral literal) name).map (.definingFields, ·)
  | .definingFields, .selectField name =>
    (env.useField name).map (.definingFieldAttributes, ·)
  | .definingFields, .startFieldsSection => .ok (.updatingFieldAttributes, env)
  | .updatingFieldAttributes, .selectField name =>
    (env.useField name).map (.updatingFieldAttributes, ·)
  | .definingFieldAttributes, .updateField attr argument =>
    (env.updateField attr argument).map (.definingFieldAttributes, ·)
  | .updatingFieldAttributes, .updateField attr argument =>
    (env.updateField attr argument).map (.updatingFieldAttributes, ·)
  | .definingFields, .startGroup name
  | .definingFieldAttributes, .startGroup name
  | .updatingFieldAttributes, .startGroup name =>
    (env.createGroup name).map (.definingFields, ·)
  | .definingFields, .startGenerator name
  | .definingFieldAttributes, .startGenerator name
  | .updatingFieldAttributes, .startGenerator name =>
    (env.createGenerator name).map (.definingGenerator, ·)
  | .definingGenerator, .setParameter name value =>
    (env.setParameter name value).map (.definingGenerator, ·)
  | .definingGenerator, .run => .ok (.finished, env)
  | stage, .run => .error (.problem (.programNotFinished stage.name))
  | stage, s => .error (unexpected stage s)

/-- Takes a statement. -/
def step (e : Evaluator) (s : Statement) : Except EnvironmentError Evaluator :=
  (act e.stage e.env s).map fun (stage, env) => enter stage env

/-- Takes statements up to the first one that is refused. -/
def run (e : Evaluator) (ss : List Statement) : Except EnvironmentError Evaluator :=
  ss.foldlM step e

/-- The statements that are taken before the first refusal, each with the stages before and after
it. -/
def transitions (e : Evaluator) : List Statement → List (Stage × Statement × Stage)
  | [] => []
  | s :: ss =>
    match e.step s with
    | .error _ => []
    | .ok next => (e.stage, s, next.stage) :: next.transitions ss

end Evaluator

/-- The environment of a program. -/
def evaluate (p : Program) : Except EnvironmentError Environment :=
  match Evaluator.run {} p.statements with
  | .error e => .error e
  | .ok e =>
    if e.stage = .finished then .ok e.env
    else .error (.problem (.programNotFinished e.stage.name))

/-! ## In place -/

/-- The stage after a statement, if it has a place. -/
def Stage.after (stage : Stage) (s : Statement) : Except EnvironmentError Stage :=
  match stage, s with
  | .started, .startGroup _ => .ok .definingFields
  | .started, _ => .error (.problem .defineRequired)
  | .finished, s => .error (Evaluator.unexpected .finished s)
  | .definingFields, .variableField .. | .definingFields, .constantField ..
  | .definingFieldAttributes, .variableField .. | .definingFieldAttributes, .constantField .. =>
    .ok .definingFields
  | .definingFields, .selectField _ => .ok .definingFieldAttributes
  | .definingFields, .startFieldsSection => .ok .updatingFieldAttributes
  | .updatingFieldAttributes, .selectField _ => .ok .updatingFieldAttributes
  | .definingFieldAttributes, .updateField .. => .ok .definingFieldAttributes
  | .updatingFieldAttributes, .updateField .. => .ok .updatingFieldAttributes
  | .definingFields, .startGroup _ | .definingFieldAttributes, .startGroup _
  | .updatingFieldAttributes, .startGroup _ => .ok .definingFields
  | .definingFields, .startGenerator _ | .definingFieldAttributes, .startGenerator _
  | .updatingFieldAttributes, .startGenerator _ => .ok .definingGenerator
  | .definingGenerator, .setParameter .. => .ok .definingGenerator
  | .definingGenerator, .run => .ok .finished
  | stage, .run => .error (.problem (.programNotFinished stage.name))
  | stage, s => .error (Evaluator.unexpected stage s)

namespace Evaluator

/-- Edits the environment. -/
def editEnv (x : Edit Environment EnvironmentError Unit) :
    Edit Evaluator EnvironmentError Unit := do
  Edit.ofPart (← get).env (fun env e => { e with env }) x

/-- Comes to a stage. Fields are defined with no field selected, and at the end of the program
nothing is current. -/
def comeTo (stage : Stage) : Edit Evaluator EnvironmentError Unit := do
  match stage with
  | .definingFields => editEnv (modify ({ · with currentField := none }))
  | .finished => editEnv (modify Environment.clearCurrent)
  | _ => pure ()
  modify ({ · with stage })

/-- Takes a statement and answers the stage after it. -/
def take (s : Statement) : Edit Evaluator EnvironmentError Stage := do
  let next ← (← get).stage.after s
  editEnv (Environment.perform s)
  comeTo next
  return next

/-- Takes all statements and goes on after refusals: the answer to each statement and the evaluator
after it. -/
def traverse (e : Evaluator) : List Statement → List (Except EnvironmentError Stage × Evaluator)
  | [] => []
  | s :: ss => (take s).apply e :: ((take s).apply e).2.traverse ss

end Evaluator

end ByteLayout
