import ByteLayout.Proofs.Arguments
import ByteLayout.Proofs.Stepping

/-!
# Edits in place

The operations in place assign one member after the other; the operations of the same names that
give new values say what the whole change is. `Edit.allOrNothing` is what is left of a change that
is made as a whole or not at all, and for each operation one lemma says that it is such a change:
an operation in place has assigned nothing when it fails.

`Evaluator.apply_take`: taking a statement in place is `Evaluator.step`, or else nothing.
-/

namespace ByteLayout

namespace Edit

variable {σ τ ε ε' α : Type}

/-- The answer and the state that are left of a change: the new state if there is one, and else the
old one. -/
def allOrNothing (answer : σ → α) (s : σ) : Except ε σ → Except ε α × σ
  | .ok t => (.ok (answer t), t)
  | .error e => (.error e, s)

/-- An edit of all or nothing fails as its change does. -/
theorem allOrNothing_eq_error {answer : σ → α} {s : σ} {change : Except ε σ} {e : ε} :
    (allOrNothing answer s change).1 = .error e ↔ change = .error e := by
  cases change with
  | error e' => simp [allOrNothing]
  | ok t => simp [allOrNothing]

/-- A change that fails as a whole leaves the state as it is. -/
theorem unchanged_of_allOrNothing {x : Edit σ ε α} {answer : σ → α} {s : σ}
    {change : Except ε σ} {e : ε} (h : x.apply s = allOrNothing answer s change)
    (he : (x.apply s).1 = .error e) : (x.apply s).2 = s := by
  rw [h] at he
  rw [h, allOrNothing_eq_error.1 he]
  rfl

/-- A change that is accepted in certain ways, and is refused for certain errors otherwise. -/
theorem allOrNothing_cases {β : Type} {answer : σ → α} {s : σ} {change : Except ε σ}
    {accepted : β → Prop} {changed : β → σ} {refused : ε → Prop}
    (hok : ∀ t, change = .ok t ↔ ∃ b, accepted b ∧ t = changed b)
    (herror : ∀ e, change = .error e → refused e) :
    (∃ b, accepted b ∧ allOrNothing answer s change = (.ok (answer (changed b)), changed b)) ∨
      (∀ b, ¬ accepted b) ∧ ∃ e, refused e ∧ allOrNothing answer s change = (.error e, s) := by
  cases hchange : change with
  | ok t =>
    obtain ⟨b, hb, rfl⟩ := (hok t).1 hchange
    exact .inl ⟨b, hb, rfl⟩
  | error e =>
    refine .inr ⟨fun b hb => ?_, e, herror e hchange, rfl⟩
    cases hchange.symm.trans ((hok _).2 ⟨b, hb, rfl⟩)

/-- Errors told in another way leave it all or nothing. -/
theorem apply_mapError_of_allOrNothing {x : Edit σ ε α} {answer : σ → α} {s : σ}
    {change : Except ε σ} (f : ε → ε') (h : x.apply s = allOrNothing answer s change) :
    (x.mapError f).apply s = allOrNothing answer s (change.mapError f) := by
  rw [apply_mapError, h]
  cases change with
  | error e => rfl
  | ok t => rfl

/-- A change that is computed first and then made is made as a whole or not at all. -/
theorem apply_bind_modify (change : Except ε α) (f : α → σ → σ) (s : σ) :
    ((liftM change : Edit σ ε α) >>= fun a => modify (f a)).apply s =
      allOrNothing (fun _ => ()) s (change.map (f · s)) := by
  rw [apply_bind, apply_liftM]
  cases change with
  | error e => rfl
  | ok a => rfl

/-- A change of a part is one of the whole, if the part as it was can be put back. -/
theorem apply_ofPart_of_allOrNothing {x : Edit τ ε Unit} {part : τ} {put : τ → σ → σ} {s : σ}
    {change : Except ε τ} (h : x.apply part = allOrNothing (fun _ => ()) part change)
    (hput : put part s = s) :
    (ofPart part put x).apply s = allOrNothing (fun _ => ()) s (change.map (put · s)) := by
  rw [apply_ofPart, h]
  cases change with
  | error e => exact congrArg _ hput
  | ok t => rfl

end Edit

open Edit (allOrNothing)

/-! ## Fields -/

variable {attr name : Text} {argument : Expr}

/-- A range keeps its format. -/
theorem NumberRange.format_ofArgument {r r' : NumberRange} (h : r.ofArgument argument = .ok r') :
    r'.format = r.format := by
  obtain ⟨lower, upper, -, -, -, -, rfl⟩ := ofArgument_eq_ok.1 h
  rfl

/-- A range is assigned in whole, though its bounds are assigned one by one. -/
theorem NumberRange.apply_assign (argument : Expr) (r : NumberRange) :
    (assign argument).apply r = allOrNothing (fun _ => ()) r (r.ofArgument argument) := by
  unfold assign
  rw [Edit.apply_bind, Edit.apply_get]
  dsimp only
  rw [Edit.apply_bind, Edit.apply_liftM]
  cases h : r.ofArgument argument with
  | error p => rfl
  | ok r' =>
    -- The bounds are assigned one after the other, and the format stays.
    have heq : { r with min := r'.min, max := r'.max } = r' := by
      rw [← format_ofArgument h]
    exact congrArg (Prod.mk _) heq

/-- So are the lengths. -/
theorem LengthBounds.apply_assign (argument : Expr) (b : LengthBounds) :
    (assign argument).apply b = allOrNothing (fun _ => ()) b
      ((LengthBounds.ofArgument argument).mapError UpdateError.problem) := by
  unfold assign
  rw [Edit.apply_bind, Edit.apply_liftM]
  cases LengthBounds.ofArgument argument with
  | error p => rfl
  | ok b' => rfl

/-- An attribute is assigned as `update` says, or nothing is. -/
theorem FieldDefinition.apply_assign (attr : Text) (argument : Expr) (d : FieldDefinition) :
    (assign attr argument).apply d = allOrNothing (fun _ => ()) d (d.update attr argument) := by
  unfold assign update
  rw [Edit.apply_bind, Edit.apply_get]
  cases d with
  | constant s => rfl
  | textNumber range display =>
    dsimp only
    split
    · exact Edit.apply_ofPart_of_allOrNothing (NumberRange.apply_assign argument range) rfl
    · split
      · exact Edit.apply_bind_modify _ (fun base _ => textNumber range (some base)) _
      · rfl
  | text length =>
    dsimp only
    split
    · exact Edit.apply_ofPart_of_allOrNothing (LengthBounds.apply_assign argument length) rfl
    · rfl
  | byteNumber range order =>
    dsimp only
    split
    · exact Edit.apply_ofPart_of_allOrNothing (NumberRange.apply_assign argument range) rfl
    · rfl
  | bytes length =>
    dsimp only
    split
    · exact Edit.apply_ofPart_of_allOrNothing (LengthBounds.apply_assign argument length) rfl
    · rfl

/-! ## Groups -/

namespace Group

/-- A field that is given its own definition is left as it is. -/
theorem setDefinition_self {fs : List Field} {f : Field}
    (h : fs.find? (fun f => f.name = some name) = some f) :
    setDefinition name f.definition fs = fs := by
  induction fs with
  | nil => cases h
  | cons f' fs ih =>
    by_cases hname : f'.name = some name
    · rw [List.find?_cons_of_pos (by simpa using hname)] at h
      cases h
      rw [setDefinition, if_pos hname]
    · rw [List.find?_cons_of_neg (by simpa using hname)] at h
      rw [setDefinition, if_neg hname, ih h]

/-- A field is appended as `addField` says, or nothing is. -/
theorem apply_append (f : Field) (g : Group) :
    (append f).apply g = allOrNothing (fun _ => ()) g (g.addField f) := by
  unfold append addField
  rw [Edit.apply_bind, Edit.apply_get]
  cases f.name with
  | none => rfl
  | some name =>
    dsimp only
    cases g.find? name with
    | none => rfl
    | some other => rfl

/-- An attribute of a field is assigned as `updateField` says, or nothing is. -/
theorem apply_assign (name attr : Text) (argument : Expr) (g : Group) :
    (assign name attr argument).apply g =
      allOrNothing (fun _ => ()) g (g.updateField name attr argument) := by
  unfold assign updateField
  rw [Edit.apply_bind, Edit.apply_get]
  dsimp only
  cases h : g.find? name with
  | none => rfl
  | some f =>
    have hput : { g with fields := setDefinition name f.definition g.fields } = g := by
      rw [setDefinition_self h]
    exact Edit.apply_ofPart_of_allOrNothing (FieldDefinition.apply_assign attr argument _) hput

end Group

/-! ## Generators -/

/-- A parameter is assigned as `update` says, or nothing is. -/
theorem Generator.apply_assign (name : Text) (value : Expr) (g : Generator) :
    (assign name value).apply g = allOrNothing (fun _ => ()) g (g.update name value) := by
  unfold assign update
  split
  · exact Edit.apply_bind_modify _ (fun n g => { g with outMin := n }) g
  · exact Edit.apply_bind_modify _ (fun n g => { g with outMax := n }) g
  · exact Edit.apply_bind_modify _ (fun bs g => { g with terminator := g.terminator ++ bs }) g
  · rfl

/-! ## Environments -/

namespace Environment

/-- A group that is put where it stands leaves all groups as they are. -/
theorem putGroup_self {groups : List (Text × Group)} {key : Text} {g : Group}
    (h : (groups.find? fun entry => entry.1 = key).map (·.2) = some g) :
    putGroup key g groups = groups := by
  induction groups with
  | nil => cases h
  | cons entry groups ih =>
    by_cases hkey : entry.1 = key
    · rw [List.find?_cons_of_pos (by simpa using hkey)] at h
      cases h
      rw [putGroup, if_pos hkey, ← hkey]
    · rw [List.find?_cons_of_neg (by simpa using hkey)] at h
      rw [putGroup, if_neg hkey, ih h]

/-- A group is begun as `createGroup` says, or nothing is done. -/
theorem apply_beginGroup (name : Text) (env : Environment) :
    (beginGroup name).apply env = allOrNothing (fun _ => ()) env (env.createGroup name) := by
  unfold beginGroup createGroup
  rw [Edit.apply_bind, Edit.apply_get]
  dsimp only
  cases env.group? name with
  | none => rfl
  | some g => rfl

/-- A generator is begun as `createGenerator` says, or nothing is done. -/
theorem apply_beginGenerator (name : Text) (env : Environment) :
    (beginGenerator name).apply env =
      allOrNothing (fun _ => ()) env (env.createGenerator name) := by
  unfold beginGenerator createGenerator
  rw [Edit.apply_bind, Edit.apply_get]
  dsimp only
  cases env.generator with
  | none => rfl
  | some g => rfl

/-- A change of the current group is one of the environment. -/
theorem apply_editGroup {ε : Type} {f : ε → EnvironmentError} {x : Edit Group ε Unit}
    {change : Group → Except ε Group}
    (hx : ∀ g, x.apply g = allOrNothing (fun _ => ()) g (change g)) (env : Environment) :
    (editGroup (x.mapError f)).apply env = allOrNothing (fun _ => ()) env
      (env.current.bind fun (key, g) =>
        ((change g).mapError f).map fun g => { env with groups := putGroup key g env.groups }) := by
  unfold editGroup
  rw [Edit.apply_bind, Edit.apply_get]
  dsimp only
  rw [Edit.apply_bind, Edit.apply_liftM]
  cases h : env.current with
  | error e => rfl
  | ok current =>
    obtain ⟨key, g⟩ := current
    -- When the edit of the group fails, the group is put back where it stands.
    have hput : { env with groups := putGroup key g env.groups } = env := by
      rw [putGroup_self (current_eq_ok.1 h).2]
    dsimp only
    rw [Edit.apply_ofPart_of_allOrNothing (Edit.apply_mapError_of_allOrNothing _ (hx g)) hput]
    rfl

/-- A field is added as `addField` says, or nothing is done. -/
theorem apply_appendField (d : Except Problem FieldDefinition) (name : Option Text)
    (env : Environment) :
    (appendField d name).apply env =
      allOrNothing (fun _ => ()) env (Evaluator.addField env d name) := by
  unfold appendField
  rw [Edit.apply_bind, Edit.apply_liftM]
  cases d with
  | error p => rfl
  | ok d =>
    refine (apply_editGroup (Group.apply_append ⟨d, name⟩) env).trans (congrArg _ ?_)
    unfold Evaluator.addField createField
    cases env.current with
    | error e => rfl
    | ok current =>
      dsimp only [Except.bind]
      cases current.2.addField ⟨d, name⟩ with
      | error p => rfl
      | ok g => rfl

/-- A field is selected as `useField` says, or nothing is done. -/
theorem apply_selectField (name : Text) (env : Environment) :
    (selectField name).apply env = allOrNothing (fun _ => ()) env (env.useField name) := by
  unfold selectField useField
  rw [Edit.apply_bind, Edit.apply_get]
  dsimp only
  rw [Edit.apply_bind, Edit.apply_liftM]
  cases env.current with
  | error e => rfl
  | ok current =>
    dsimp only
    cases current.2.find? name with
    | none => rfl
    | some f => rfl

/-- An attribute is set as `updateField` says, or nothing is done. -/
theorem apply_assignAttribute (attr : Text) (argument : Expr) (env : Environment) :
    (assignAttribute attr argument).apply env =
      allOrNothing (fun _ => ()) env (env.updateField attr argument) := by
  unfold assignAttribute updateField
  rw [Edit.apply_bind, Edit.apply_get]
  obtain ⟨groups, generator, currentGroup, currentField⟩ := env
  cases currentField with
  | none => rfl
  | some name =>
    refine (apply_editGroup (Group.apply_assign name attr argument) _).trans (congrArg _ ?_)
    cases current ⟨groups, generator, currentGroup, some name⟩ with
    | error e => rfl
    | ok current =>
      dsimp only [Except.bind]
      cases current.2.updateField name attr argument with
      | error e => rfl
      | ok g => rfl

/-- A parameter is set as `setParameter` says, or nothing is done. -/
theorem apply_assignParameter (name : Text) (value : Expr) (env : Environment) :
    (assignParameter name value).apply env =
      allOrNothing (fun _ => ()) env (env.setParameter name value) := by
  unfold assignParameter setParameter getGenerator
  rw [Edit.apply_bind, Edit.apply_get]
  dsimp only
  rw [Edit.apply_bind, Edit.apply_liftM]
  cases h : env.generator with
  | none => rfl
  | some g =>
    have hput : { env with generator := some g } = env := by rw [← h]
    dsimp only [Except.mapError]
    rw [Edit.apply_ofPart_of_allOrNothing
      (Edit.apply_mapError_of_allOrNothing _ (Generator.apply_assign name value g)) hput]
    cases g.update name value with
    | error p => rfl
    | ok g' => rfl

/-- The environment that a statement leads to. -/
def performed (env : Environment) : Statement → Except EnvironmentError Environment
  | .startGroup name => env.createGroup name
  | .startGenerator name => env.createGenerator name
  | .variableField kind name => Evaluator.addField env (FieldDefinition.ofTypeName kind) name
  | .constantField literal name => Evaluator.addField env (FieldDefinition.ofLiteral literal) name
  | .selectField name => env.useField name
  | .updateField attr argument => env.updateField attr argument
  | .setParameter name value => env.setParameter name value
  | .startFieldsSection | .run => .ok env

/-- A statement does to an environment all of what `performed` says, or nothing. -/
theorem apply_perform (s : Statement) (env : Environment) :
    (perform s).apply env = allOrNothing (fun _ => ()) env (env.performed s) := by
  cases s with
  | startGroup name => exact apply_beginGroup name env
  | startGenerator name => exact apply_beginGenerator name env
  | variableField kind name => exact apply_appendField _ name env
  | constantField literal name => exact apply_appendField _ name env
  | selectField name => exact apply_selectField name env
  | updateField attr argument => exact apply_assignAttribute attr argument env
  | setParameter name value => exact apply_assignParameter name value env
  | startFieldsSection => rfl
  | run => rfl

end Environment

/-! ## Evaluators -/

namespace Evaluator

/-- What a statement makes of an environment is made where the statement has a place. -/
theorem act_eq (stage : Stage) (env : Environment) (s : Statement) :
    act stage env s = match stage.after s with
      | .error e => .error e
      | .ok next => (env.performed s).map (next, ·) := by
  cases stage <;> cases s <;> rfl

/-- An edit of the environment that is all or nothing is so for the evaluator. -/
theorem apply_editEnv {x : Edit Environment EnvironmentError Unit} {env : Environment}
    {change : Except EnvironmentError Environment}
    (hx : x.apply env = allOrNothing (fun _ => ()) env change) (stage : Stage) :
    (editEnv x).apply ⟨stage, env⟩ = allOrNothing (fun _ => ()) ⟨stage, env⟩
      (change.map (Evaluator.mk stage)) := by
  unfold editEnv
  rw [Edit.apply_bind, Edit.apply_get]
  exact Edit.apply_ofPart_of_allOrNothing hx rfl

/-- An evaluator comes to a stage as `enter` says. -/
theorem apply_comeTo (next stage : Stage) (env : Environment) :
    (comeTo next).apply ⟨stage, env⟩ = (.ok (), enter next env) := by
  cases next <;> rfl

/-- A statement is taken as a whole or not at all. -/
theorem apply_take (s : Statement) (e : Evaluator) :
    (take s).apply e = allOrNothing Evaluator.stage e (e.step s) := by
  obtain ⟨stage, env⟩ := e
  unfold take step
  rw [Edit.apply_bind, Edit.apply_get]
  dsimp only
  rw [Edit.apply_bind, Edit.apply_liftM, act_eq]
  cases stage.after s with
  | error e => rfl
  | ok next =>
    dsimp only
    rw [Edit.apply_bind, apply_editEnv (Environment.apply_perform s env)]
    cases env.performed s with
    | error e => rfl
    | ok env' =>
      dsimp only [Except.map, allOrNothing]
      rw [Edit.apply_bind, apply_comeTo]
      cases next <;> rfl

end Evaluator

end ByteLayout
