import ByteLayout.Evaluator
import ByteLayout.Proofs.Results

/-!
# What an evaluator takes

`Takes` lists the statements that an evaluator takes, with the stages at which it does so and the
operation on the environment that has to succeed. `step_eq_ok` says that this is all that a step
can do, and `run_append` and `run_concat` that a run is its steps one after the other.

For each operation on groups and environments one lemma says when it succeeds and what it gives.
-/

namespace ByteLayout

/-! ## Operations on groups -/

section Groups

variable {g g' : Group} {name attr : Text} {argument : Expr}

/-- No field is found under a name that no field has. -/
theorem Group.find?_eq_none : g.find? name = none ↔ some name ∉ g.fields.map Field.name := by
  simp [Group.find?, List.find?_eq_none]

/-- A field is found under every name that a field has. -/
theorem Group.find?_isSome :
    (∃ f, g.find? name = some f) ↔ some name ∈ g.fields.map Field.name := by
  rw [← Option.ne_none_iff_exists', ne_eq, Group.find?_eq_none, Classical.not_not]

/-- A field is added at the end, unless another one has its name. -/
theorem Group.addField_eq_ok {f : Field} : g.addField f = .ok g' ↔
    (∀ a ∈ f.name, some a ∉ g.fields.map Field.name) ∧
      g' = { g with fields := g.fields ++ [f] } := by
  constructor
  · intro h
    unfold Group.addField at h
    split at h
    · next hname =>
      cases h
      exact ⟨by simp [hname], rfl⟩
    · next a hname =>
      split at h
      · cases h
      · next hfind =>
        cases h
        refine ⟨fun b hb => ?_, rfl⟩
        rw [hname] at hb
        cases hb
        exact Group.find?_eq_none.1 hfind
  · rintro ⟨hfresh, rfl⟩
    cases hname : f.name with
    | none => simp only [Group.addField, hname]
    | some a =>
      have hfind := Group.find?_eq_none.2 (hfresh a hname)
      simp only [Group.addField, hname, hfind]

/-- An attribute goes to the field of the name, if its definition accepts it. -/
theorem Group.updateField_eq_ok : g.updateField name attr argument = .ok g' ↔
    ∃ f d', g.find? name = some f ∧ f.definition.update attr argument = .ok d' ∧
      g' = { g with fields := setDefinition name d' g.fields } := by
  constructor
  · intro h
    unfold Group.updateField at h
    split at h
    · cases h
    · next f hfind =>
      obtain ⟨d', hd', rfl⟩ := Except.map_eq_ok.1 h
      exact ⟨f, d', hfind, hd', rfl⟩
  · rintro ⟨f, d', hfind, hd', rfl⟩
    simp only [Group.updateField, hfind, hd', Except.map]

end Groups

/-! ## Operations on environments -/

namespace Environment

variable {env env' : Environment} {name attr : Text}

/-- A group is begun under a new name, which is then the current one. -/
theorem createGroup_eq_ok : env.createGroup name = .ok env' ↔
    env.group? name = none ∧
      env' = ⟨env.groups ++ [(name, { name := name })], env.generator, some name, none⟩ := by
  unfold createGroup
  split
  · next h => simp [h]
  · next h => simp [h, eq_comm]

/-- A generator is begun if there is none. -/
theorem createGenerator_eq_ok : env.createGenerator name = .ok env' ↔
    env.generator = none ∧ env' = { env with generator := some { group := name } } := by
  unfold createGenerator
  split
  · next h => simp [h]
  · next h => simp [h, eq_comm]

/-- There is a current group, and it has an entry. -/
theorem current_eq_ok {key : Text} {g : Group} : env.current = .ok (key, g) ↔
    env.currentGroup = some key ∧ env.group? key = some g := by
  constructor
  · intro h
    unfold current at h
    split at h
    · cases h
    · next hkey =>
      split at h
      · next hg =>
        cases h
        exact ⟨hkey, hg⟩
      · cases h
  · rintro ⟨hkey, hg⟩
    simp only [current, hkey, hg]

/-- A field is added to the current group. -/
theorem createField_eq_ok {d : FieldDefinition} {name : Option Text} :
    env.createField d name = .ok env' ↔
      ∃ key g g', env.currentGroup = some key ∧ env.group? key = some g ∧
        g.addField ⟨d, name⟩ = .ok g' ∧
          env' = { env with groups := putGroup key g' env.groups } := by
  constructor
  · intro h
    unfold createField at h
    split at h
    · cases h
    · next key g hcurrent =>
      obtain ⟨hkey, hg⟩ := current_eq_ok.1 hcurrent
      split at h
      · cases h
      · next g' hg' =>
        cases h
        exact ⟨key, g, g', hkey, hg, hg', rfl⟩
  · rintro ⟨key, g, g', hkey, hg, hg', rfl⟩
    simp only [createField, current_eq_ok.2 ⟨hkey, hg⟩, hg']

/-- A field is selected that the current group has. -/
theorem useField_eq_ok : env.useField name = .ok env' ↔
    ∃ key g f, env.currentGroup = some key ∧ env.group? key = some g ∧ g.find? name = some f ∧
      env' = { env with currentField := some name } := by
  constructor
  · intro h
    unfold useField at h
    split at h
    · cases h
    · next key g hcurrent =>
      obtain ⟨hkey, hg⟩ := current_eq_ok.1 hcurrent
      split at h
      · cases h
      · next f hf =>
        cases h
        exact ⟨key, g, f, hkey, hg, hf, rfl⟩
  · rintro ⟨key, g, f, hkey, hg, hf, rfl⟩
    simp only [useField, current_eq_ok.2 ⟨hkey, hg⟩, hf]

/-- An attribute goes to the selected field of the current group. -/
theorem updateField_eq_ok {argument : Expr} : env.updateField attr argument = .ok env' ↔
    ∃ name key g g', env.currentField = some name ∧ env.currentGroup = some key ∧
      env.group? key = some g ∧ g.updateField name attr argument = .ok g' ∧
        env' = { env with groups := putGroup key g' env.groups } := by
  constructor
  · intro h
    unfold updateField at h
    split at h
    · cases h
    · next name hname =>
      split at h
      · cases h
      · next key g hcurrent =>
        obtain ⟨hkey, hg⟩ := current_eq_ok.1 hcurrent
        split at h
        · cases h
        · next g' hg' =>
          cases h
          exact ⟨name, key, g, g', hname, hkey, hg, hg', rfl⟩
  · rintro ⟨name, key, g, g', hname, hkey, hg, hg', rfl⟩
    simp only [updateField, hname, current_eq_ok.2 ⟨hkey, hg⟩, hg']

/-- A parameter goes to the generator. -/
theorem setParameter_eq_ok {value : Expr} : env.setParameter name value = .ok env' ↔
    ∃ g g', env.generator = some g ∧ g.update name value = .ok g' ∧
      env' = { env with generator := some g' } := by
  constructor
  · intro h
    unfold setParameter getGenerator at h
    cases hg : env.generator with
    | none =>
      rw [hg] at h
      cases h
    | some g =>
      rw [hg] at h
      cases hg' : g.update name value with
      | error p => simp only [hg', reduceCtorEq] at h
      | ok g' =>
        simp only [hg', Except.ok.injEq] at h
        exact ⟨g, g', rfl, hg', h.symm⟩
  · rintro ⟨g, g', hg, hg', rfl⟩
    simp only [setParameter, getGenerator, hg, hg']

end Environment

/-! ## Steps -/

/-- The stages at which the fields of a group are declared or updated. -/
def Stage.InGroup (stage : Stage) : Prop :=
  stage = .definingFields ∨ stage = .definingFieldAttributes ∨ stage = .updatingFieldAttributes

namespace Evaluator

variable {e e' : Evaluator} {s : Statement} {ss ts : List Statement}

/-- The evaluator takes the statement and is then another one. -/
inductive Takes : Evaluator → Statement → Evaluator → Prop
  /-- The beginning of a group. -/
  | startGroup {stage : Stage} {env env' : Environment} {name : Text}
    (h : stage = .started ∨ stage.InGroup) (henv : env.createGroup name = .ok env') :
    Takes ⟨stage, env⟩ (.startGroup name) (enter .definingFields env')
  /-- A field of random content. -/
  | variableField {stage : Stage} {env env' : Environment} {kind : Text} {name : Option Text}
    {d : FieldDefinition} (h : stage = .definingFields ∨ stage = .definingFieldAttributes)
    (hd : FieldDefinition.ofTypeName kind = .ok d) (henv : env.createField d name = .ok env') :
    Takes ⟨stage, env⟩ (.variableField kind name) (enter .definingFields env')
  /-- A field of constant content. -/
  | constantField {stage : Stage} {env env' : Environment} {l : Literal} {name : Option Text}
    {d : FieldDefinition} (h : stage = .definingFields ∨ stage = .definingFieldAttributes)
    (hd : FieldDefinition.ofLiteral l = .ok d) (henv : env.createField d name = .ok env') :
    Takes ⟨stage, env⟩ (.constantField l name) (enter .definingFields env')
  /-- A selection among the fields of a group. -/
  | selectField {env env' : Environment} {name : Text} (henv : env.useField name = .ok env') :
    Takes ⟨.definingFields, env⟩ (.selectField name) ⟨.definingFieldAttributes, env'⟩
  /-- A selection in a section of fields. -/
  | selectInSection {env env' : Environment} {name : Text}
    (henv : env.useField name = .ok env') :
    Takes ⟨.updatingFieldAttributes, env⟩ (.selectField name) ⟨.updatingFieldAttributes, env'⟩
  /-- An update of the selected field. -/
  | updateField {stage : Stage} {env env' : Environment} {attr : Text} {argument : Expr}
    (h : stage = .definingFieldAttributes ∨ stage = .updatingFieldAttributes)
    (henv : env.updateField attr argument = .ok env') :
    Takes ⟨stage, env⟩ (.updateField attr argument) ⟨stage, env'⟩
  /-- The beginning of a section of fields. -/
  | startFieldsSection {env : Environment} :
    Takes ⟨.definingFields, env⟩ .startFieldsSection ⟨.updatingFieldAttributes, env⟩
  /-- The beginning of the generator. -/
  | startGenerator {stage : Stage} {env env' : Environment} {name : Text} (h : stage.InGroup)
    (henv : env.createGenerator name = .ok env') :
    Takes ⟨stage, env⟩ (.startGenerator name) ⟨.definingGenerator, env'⟩
  /-- A parameter of the generator. -/
  | setParameter {env env' : Environment} {name : Text} {value : Expr}
    (henv : env.setParameter name value = .ok env') :
    Takes ⟨.definingGenerator, env⟩ (.setParameter name value) ⟨.definingGenerator, env'⟩
  /-- The end of the program. -/
  | run {env : Environment} : Takes ⟨.definingGenerator, env⟩ .run ⟨.finished, env.clearCurrent⟩

/-- A field is added if its definition can be made. -/
theorem addField_eq_ok {env env' : Environment} {d : Except Problem FieldDefinition}
    {name : Option Text} : addField env d name = .ok env' ↔
      ∃ d', d = .ok d' ∧ env.createField d' name = .ok env' := by
  cases d with
  | error p => simp [addField]
  | ok d' => simp [addField]

/-- A step that succeeds takes its statement. -/
theorem takes_of_step (h : e.step s = .ok e') : Takes e s e' := by
  obtain ⟨stage, env⟩ := e
  obtain ⟨⟨stage', env'⟩, hact, rfl⟩ := Except.map_eq_ok.1 h
  clear h
  cases s with
  | startGroup name =>
    cases stage with
    | started =>
      obtain ⟨env', henv, ⟨⟩⟩ := Except.map_eq_ok.1 hact
      exact .startGroup (.inl rfl) henv
    | definingFields | definingFieldAttributes | updatingFieldAttributes =>
      obtain ⟨env', henv, ⟨⟩⟩ := Except.map_eq_ok.1 hact
      exact .startGroup (.inr (by simp [Stage.InGroup])) henv
    | definingGenerator | finished => cases hact
  | variableField kind name =>
    cases stage with
    | definingFields | definingFieldAttributes =>
      obtain ⟨env', henv, ⟨⟩⟩ := Except.map_eq_ok.1 hact
      obtain ⟨d, hd, henv⟩ := addField_eq_ok.1 henv
      exact .variableField (by simp) hd henv
    | started | updatingFieldAttributes | definingGenerator | finished => cases hact
  | constantField l name =>
    cases stage with
    | definingFields | definingFieldAttributes =>
      obtain ⟨env', henv, ⟨⟩⟩ := Except.map_eq_ok.1 hact
      obtain ⟨d, hd, henv⟩ := addField_eq_ok.1 henv
      exact .constantField (by simp) hd henv
    | started | updatingFieldAttributes | definingGenerator | finished => cases hact
  | selectField name =>
    cases stage with
    | definingFields =>
      obtain ⟨env', henv, ⟨⟩⟩ := Except.map_eq_ok.1 hact
      exact .selectField henv
    | updatingFieldAttributes =>
      obtain ⟨env', henv, ⟨⟩⟩ := Except.map_eq_ok.1 hact
      exact .selectInSection henv
    | started | definingFieldAttributes | definingGenerator | finished => cases hact
  | updateField attr argument =>
    cases stage with
    | definingFieldAttributes | updatingFieldAttributes =>
      obtain ⟨env', henv, ⟨⟩⟩ := Except.map_eq_ok.1 hact
      exact .updateField (by simp) henv
    | started | definingFields | definingGenerator | finished => cases hact
  | startFieldsSection =>
    cases stage with
    | definingFields =>
      cases hact
      exact .startFieldsSection
    | started | definingFieldAttributes | updatingFieldAttributes | definingGenerator
    | finished => cases hact
  | startGenerator name =>
    cases stage with
    | definingFields | definingFieldAttributes | updatingFieldAttributes =>
      obtain ⟨env', henv, ⟨⟩⟩ := Except.map_eq_ok.1 hact
      exact .startGenerator (by simp [Stage.InGroup]) henv
    | started | definingGenerator | finished => cases hact
  | setParameter name value =>
    cases stage with
    | definingGenerator =>
      obtain ⟨env', henv, ⟨⟩⟩ := Except.map_eq_ok.1 hact
      exact .setParameter henv
    | started | definingFields | definingFieldAttributes | updatingFieldAttributes
    | finished => cases hact
  | run =>
    cases stage with
    | definingGenerator =>
      cases hact
      exact .run
    | started | definingFields | definingFieldAttributes | updatingFieldAttributes
    | finished => cases hact

/-- A statement that is taken is a step that succeeds. -/
theorem Takes.step_eq (h : Takes e s e') : e.step s = .ok e' := by
  cases h with
  | startGroup h henv =>
    rcases h with rfl | rfl | rfl | rfl <;> simp [step, act, henv, Except.map]
  | variableField h hd henv | constantField h hd henv =>
    rcases h with rfl | rfl <;> simp [step, act, addField, hd, henv, Except.map]
  | selectField henv | selectInSection henv | setParameter henv =>
    simp [step, act, henv, Except.map, enter]
  | updateField h henv => rcases h with rfl | rfl <;> simp [step, act, henv, Except.map, enter]
  | startFieldsSection | run => rfl
  | startGenerator h henv =>
    rcases h with rfl | rfl | rfl <;> simp [step, act, henv, Except.map, enter]

/-- A step succeeds exactly if the statement is taken. -/
theorem step_eq_ok : e.step s = .ok e' ↔ Takes e s e' :=
  ⟨takes_of_step, Takes.step_eq⟩

/-! ## Runs -/

theorem run_nil (e : Evaluator) : e.run [] = .ok e := rfl

/-- A run of two parts is a run of the one and then of the other. -/
theorem run_append : e.run (ss ++ ts) = .ok e' ↔
    ∃ mid, e.run ss = .ok mid ∧ mid.run ts = .ok e' :=
  foldlM_append_eq_ok

/-- A run of one statement is a step. -/
theorem run_singleton : e.run [s] = .ok e' ↔ Takes e s e' := by
  rw [← step_eq_ok]
  exact foldlM_singleton_eq_ok

/-- A run ends with the step of its last statement. -/
theorem run_concat : e.run (ss ++ [s]) = .ok e' ↔ ∃ mid, e.run ss = .ok mid ∧ Takes mid s e' := by
  simp only [run_append, run_singleton]

/-- A run begins with the step of its first statement. -/
theorem run_cons : e.run (s :: ss) = .ok e' ↔ ∃ mid, Takes e s mid ∧ mid.run ss = .ok e' := by
  rw [← List.singleton_append, run_append]
  simp only [run_singleton]

end Evaluator

end ByteLayout
