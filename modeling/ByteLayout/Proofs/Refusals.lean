import ByteLayout.Proofs.Attributes
import ByteLayout.Proofs.Consistency
import ByteLayout.Proofs.Parameters

/-!
# Why statements are refused

`Refuses` lists the problems for which an evaluator refuses a statement. It holds nothing for states
that cannot come about, such as a second generator or a current group that is missing. Two
statements are not even refused: a range whose refusal would have to name a bound that is too long,
and a terminator that has no bytes. They are listed by `Breaks`. `step_eq_error` says that an
evaluator that can come about fails for no other reason.

`evaluate_eq_error`: an evaluation fails with the first statement that is not taken, or else because
the program is not finished at its end. `evaluate_failures` sorts the failures.
-/

namespace ByteLayout

/-! ## Places -/

/-- A statement has a place at the start, within a group or among the parameters of the
generator. -/
theorem Stage.place_of_after {stage next : Stage} {s : Statement} (h : stage.after s = .ok next) :
    (stage = .started ∧ ∃ name, s = .startGroup name) ∨ stage.InGroup ∨
      stage = .definingGenerator ∧ ((∃ name value, s = .setParameter name value) ∨ s = .run) := by
  cases stage with
  | started =>
    cases s with
    | startGroup name => exact .inl ⟨rfl, name, rfl⟩
    | _ => cases h
  | definingFields => exact .inr (.inl (.inl rfl))
  | definingFieldAttributes => exact .inr (.inl (.inr (.inl rfl)))
  | updatingFieldAttributes => exact .inr (.inl (.inr (.inr rfl)))
  | definingGenerator =>
    cases s with
    | setParameter name value => exact .inr (.inr ⟨rfl, .inl ⟨name, value, rfl⟩⟩)
    | run => exact .inr (.inr ⟨rfl, .inr rfl⟩)
    | _ => cases h
  | finished => cases s <;> cases h

/-- An attribute has a place where fields are selected. -/
theorem Stage.hasSelection_of_after {stage next : Stage} {attr : Text} {argument : Expr}
    (h : stage.after (.updateField attr argument) = .ok next) :
    stage = .definingFieldAttributes ∨ stage = .updatingFieldAttributes := by
  cases stage with
  | definingFieldAttributes => exact .inl rfl
  | updatingFieldAttributes => exact .inr rfl
  | started | definingFields | definingGenerator | finished => cases h

/-- A field is refused for its name, which another field has. -/
theorem Group.addField_eq_error {g : Group} {f : Field} {p : Problem}
    (h : g.addField f = .error p) : ∃ a, f.name = some a ∧ p = .duplicateAlias a g.name := by
  unfold addField at h
  split at h
  · cases h
  · next a hname =>
    split at h
    · cases h
      exact ⟨a, hname, rfl⟩
    · cases h

namespace Evaluator

/-! ## Reasons -/

/-- The evaluator refuses the statement for this problem. -/
inductive Refuses (e : Evaluator) : Statement → Problem → Prop
  /-- Nothing but a group begins a program. -/
  | noGroup {s : Statement} (hstage : e.stage = .started) (hs : ∀ name, s ≠ .startGroup name) :
    Refuses e s .defineRequired
  /-- The program ends within a group. -/
  | unfinished (hstage : e.stage.InGroup) : Refuses e .run (.programNotFinished e.stage.name)
  /-- The statement has no place. -/
  | misplaced {s : Statement} (hstage : e.stage ≠ .started) (hs : s = .run → ¬ e.stage.InGroup) :
    Refuses e s (.unexpectedStatement s.label e.stage.name)
  /-- There is a group of this name. -/
  | duplicateGroup {name : Text} (hname : e.env.group? name ≠ none) :
    Refuses e (.startGroup name) (.duplicateGroup name)
  /-- No field has content of this type. -/
  | fieldType {kind : Text} {name : Option Text} :
    Refuses e (.variableField kind name) (.unsupportedFieldType kind)
  /-- No field holds this literal. -/
  | fieldLiteral {l : Literal} {name : Option Text} {kind : Text}
    (hl : FieldDefinition.ofLiteral l = .error (.literalFieldNotImplemented kind)) :
    Refuses e (.constantField l name) (.literalFieldNotImplemented kind)
  /-- There is a field of this name in the current group. -/
  | duplicateField {s : Statement} {name key : Text} {g : Group}
    (hs : (∃ kind, s = .variableField kind (some name)) ∨ ∃ l, s = .constantField l (some name))
    (hcurrent : e.env.current = .ok (key, g)) : Refuses e s (.duplicateAlias name g.name)
  /-- There is no field of this name in the current group. -/
  | unknownField {name key : Text} {g : Group} (hcurrent : e.env.current = .ok (key, g)) :
    Refuses e (.selectField name) (.fieldNotFound name g.name)
  /-- No field is selected. -/
  | unselected {attr : Text} {argument : Expr} (hfield : e.env.currentField = none) :
    Refuses e (.updateField attr argument) (.noCurrentField attr)
  /-- The selected field does not accept the attribute. -/
  | badAttribute {attr : Text} {argument : Expr} {p : Problem} {d : FieldDefinition}
    (hd : d.update attr argument = .error (.problem p)) : Refuses e (.updateField attr argument) p
  /-- The generator does not accept the parameter. -/
  | badParameter {name : Text} {value : Expr} {p : Problem} {g : Generator}
    (hg : g.update name value = .error (.problem p)) : Refuses e (.setParameter name value) p

/-- The evaluator fails at the statement for a number or a text that cannot be written. -/
inductive Breaks (e : Evaluator) : Statement → Text.Unwritable → Prop
  /-- The range of the selected field names a bound that is too long. -/
  | range {attr name key : Text} {argument : Expr} {g : Group} {f : Field}
    (hstage : e.stage = .definingFieldAttributes ∨ e.stage = .updatingFieldAttributes)
    (hfield : e.env.currentField = some name) (hcurrent : e.env.current = .ok (key, g))
    (hf : g.find? name = some f) (hlong : f.definition.NamesTooLong ⟨attr, argument⟩) :
    Breaks e (.updateField attr argument) .tooManyDigits
  /-- The text of the terminator has no bytes. -/
  | terminator {name : Text} {value : Expr} {u : Text.Unwritable}
    (hstage : e.stage = .definingGenerator) (hbreaks : Generator.Breaks (name, value) u) :
    Breaks e (.setParameter name value) u

/-- The evaluator fails at the statement with this error. -/
inductive Fails (e : Evaluator) (s : Statement) : EnvironmentError → Prop
  /-- It refuses the statement. -/
  | refuses {p : Problem} (h : e.Refuses s p) : Fails e s (.problem p)
  /-- What the statement holds cannot be written. -/
  | breaks {u : Text.Unwritable} (h : e.Breaks s u) : Fails e s (.unwritable u)

variable {ds : List DeclaredGroup} {e : Evaluator} {s : Statement} {p : Problem}
  {u : Text.Unwritable} {error : EnvironmentError} {ss : List Statement}

/-- A statement without a place is refused for that. -/
theorem fails_of_after (h : e.stage.after s = .error error) : e.Fails s error := by
  obtain ⟨stage, env⟩ := e
  cases stage with
  | started =>
    cases s with
    | startGroup name => cases h
    | _ =>
      cases h
      exact .refuses (.noGroup rfl (by simp))
  | definingFields | definingFieldAttributes | updatingFieldAttributes =>
    cases s with
    | run =>
      cases h
      exact .refuses (.unfinished (by simp [Stage.InGroup]))
    | _ => cases h <;> exact .refuses (.misplaced (by simp) (by simp))
  | definingGenerator | finished =>
    cases s <;> cases h <;> exact .refuses (.misplaced (by simp) (by simp [Stage.InGroup]))

/-! ## Operations that fail -/

/-- A group that is not created is refused. -/
theorem fails_of_createGroup {name : Text} (h : e.env.createGroup name = .error error) :
    e.Fails (.startGroup name) error := by
  unfold Environment.createGroup at h
  split at h
  · next g hg =>
    cases h
    exact .refuses (.duplicateGroup (by simp [hg]))
  · cases h

/-! ## Consistent evaluators -/

/-- Within a group there is a current one, and what is selected is a field of it. -/
theorem Consistent.current (he : Consistent ds e) (hstage : e.stage.InGroup) :
    ∃ key g, e.env.current = .ok (key, g) ∧ e.stage.Selects e.env.currentField g := by
  have hne : e.stage ≠ .started ∧ e.stage ≠ .finished := by
    rcases hstage with h | h | h <;> simp [h]
  obtain ⟨d, g, -, hkey, hg, hselects⟩ := he.currentGroup hne.1 hne.2
  exact ⟨d.1, g, Environment.current_eq_ok.2 ⟨hkey, hg⟩, hselects⟩

/-- Within a group there is no generator yet. -/
theorem Consistent.generator_eq_none (he : Consistent ds e) (hstage : e.stage.InGroup) :
    e.env.generator = none := by
  rw [← Option.not_isSome_iff_eq_none, he.generator]
  rcases hstage with h | h | h <;> simp [h]

/-- A field is refused for its content or for its name. -/
theorem addField_eq_error {env : Environment} {d : Except Problem FieldDefinition}
    {name : Option Text} {key : Text} {g : Group} (hcurrent : env.current = .ok (key, g))
    (h : addField env d name = .error error) :
    (∃ p, d = .error p ∧ error = .problem p) ∨
      ∃ a, name = some a ∧ error = .problem (.duplicateAlias a g.name) := by
  cases d with
  | error p =>
    cases h
    exact .inl ⟨p, rfl, rfl⟩
  | ok d =>
    simp only [addField, Environment.createField, hcurrent] at h
    cases hadd : g.addField ⟨d, name⟩ with
    | ok g' => simp only [hadd, reduceCtorEq] at h
    | error p =>
      simp only [hadd] at h
      cases h
      obtain ⟨a, rfl, rfl⟩ := Group.addField_eq_error hadd
      exact .inr ⟨a, rfl, rfl⟩

/-- An attribute fails if no field is selected, and else as it does for the selected field. -/
theorem updateField_eq_error {env : Environment} {attr : Text} {argument : Expr} {key : Text}
    {g : Group} (hcurrent : env.current = .ok (key, g))
    (hselected : ∀ m ∈ env.currentField, some m ∈ g.fields.map Field.name)
    (h : env.updateField attr argument = .error error) :
    (env.currentField = none ∧ error = .problem (.noCurrentField attr)) ∨
      ∃ m f e, env.currentField = some m ∧ g.find? m = some f ∧
        f.definition.update attr argument = .error e ∧ error = .ofUpdate e := by
  unfold Environment.updateField at h
  cases hfield : env.currentField with
  | none =>
    rw [hfield] at h
    cases h
    exact .inl ⟨rfl, rfl⟩
  | some m =>
    obtain ⟨f, hf⟩ := Group.find?_isSome.2 (hselected m hfield)
    rw [hfield, hcurrent] at h
    simp only [Group.updateField, hf] at h
    cases hupdate : f.definition.update attr argument with
    | ok d =>
      rw [hupdate] at h
      cases h
    | error e =>
      rw [hupdate] at h
      cases h
      exact .inr ⟨m, f, e, rfl, hf, hupdate, rfl⟩

/-- An attribute that the selected field does not take fails for its own sake. -/
theorem fails_of_updateField {attr key m : Text} {argument : Expr} {g : Group} {f : Field}
    {next : Stage} {cause : UpdateError}
    (hplace : e.stage.after (.updateField attr argument) = .ok next)
    (hcurrent : e.env.current = .ok (key, g)) (hfield : e.env.currentField = some m)
    (hf : g.find? m = some f) (hupdate : f.definition.update attr argument = .error cause) :
    e.Fails (.updateField attr argument) (.ofUpdate cause) := by
  cases cause with
  | problem p => exact .refuses (.badAttribute hupdate)
  | unwritable u =>
    obtain ⟨hlong, rfl⟩ := FieldDefinition.update_eq_unwritable.1 hupdate
    exact .breaks (.range (Stage.hasSelection_of_after hplace) hfield hcurrent hf hlong)

/-- A parameter that the generator does not take fails for its own sake. -/
theorem fails_of_setParameter {name : Text} {value : Expr} {g : Generator} {cause : UpdateError}
    (hstage : e.stage = .definingGenerator) (hupdate : g.update name value = .error cause) :
    e.Fails (.setParameter name value) (.ofUpdate cause) := by
  cases cause with
  | problem p => exact .refuses (.badParameter hupdate)
  | unwritable u =>
    have hbreaks : Generator.Breaks (name, value) u := Generator.update_eq_unwritable.1 hupdate
    exact .breaks (.terminator hstage hbreaks)

/-- What a statement with a place cannot make of an environment fails for its own sake. -/
theorem Consistent.fails_of_performed (he : Consistent ds e) {next : Stage}
    (hplace : e.stage.after s = .ok next) (h : e.env.performed s = .error error) :
    e.Fails s error := by
  -- Where the place is, the current group or the generator is there.
  obtain ⟨-, name, rfl⟩ | hstage | ⟨hstage, ⟨name, value, rfl⟩ | rfl⟩ :=
    Stage.place_of_after hplace
  · exact fails_of_createGroup h
  · obtain ⟨key, g, hcurrent, hselects⟩ := he.current hstage
    cases s with
    | startGroup name => exact fails_of_createGroup h
    | startGenerator name =>
      unfold Environment.performed Environment.createGenerator at h
      rw [he.generator_eq_none hstage] at h
      cases h
    | variableField kind name =>
      obtain ⟨p, hd, rfl⟩ | ⟨a, rfl, rfl⟩ := addField_eq_error hcurrent h
      · unfold FieldDefinition.ofTypeName at hd
        split at hd
        · cases hd
        · cases hd
          exact .refuses .fieldType
      · exact .refuses (.duplicateField (.inl ⟨kind, rfl⟩) hcurrent)
    | constantField l name =>
      obtain ⟨p, hd, rfl⟩ | ⟨a, rfl, rfl⟩ := addField_eq_error hcurrent h
      · cases l with
        | integer | text => cases hd
        | bytes | reserved =>
          cases hd
          exact .refuses (.fieldLiteral rfl)
      · exact .refuses (.duplicateField (.inr ⟨l, rfl⟩) hcurrent)
    | selectField name =>
      unfold Environment.performed Environment.useField at h
      rw [hcurrent] at h
      cases hfind : g.find? name with
      | some f => simp only [hfind, reduceCtorEq] at h
      | none =>
        simp only [hfind] at h
        cases h
        exact .refuses (.unknownField hcurrent)
    | updateField attr argument =>
      obtain ⟨hfield, rfl⟩ | ⟨m, f, cause, hfield, hf, hupdate, rfl⟩ :=
        updateField_eq_error hcurrent hselects.mem h
      · exact .refuses (.unselected hfield)
      · exact fails_of_updateField hplace hcurrent hfield hf hupdate
    | setParameter name value => rcases hstage with h | h | h <;> simp [h, Stage.after] at hplace
    | startFieldsSection | run => cases h
  · obtain ⟨g, hg⟩ := Option.isSome_iff_exists.1 (he.generator.2 (.inl hstage))
    unfold Environment.performed Environment.setParameter Environment.getGenerator at h
    rw [hg] at h
    cases hupdate : g.update name value with
    | ok g' => simp only [hupdate, reduceCtorEq] at h
    | error cause =>
      simp only [hupdate] at h
      cases h
      exact fails_of_setParameter hstage hupdate
  · cases h

/-- An evaluator that can come about fails at a statement for one of the listed reasons. -/
theorem Consistent.fails_of_step (he : Consistent ds e) (h : e.step s = .error error) :
    e.Fails s error := by
  have hact := Except.map_eq_error.1 h
  rw [act_eq] at hact
  cases hplace : e.stage.after s with
  | error error' =>
    rw [hplace] at hact
    cases hact
    exact fails_of_after hplace
  | ok next =>
    rw [hplace] at hact
    exact he.fails_of_performed hplace (Except.map_eq_error.1 hact)

/-- What a statement holds cannot be written exactly where the evaluator breaks. -/
theorem Consistent.step_eq_unwritable (he : Consistent ds e) :
    e.step s = .error (.unwritable u) ↔ e.Breaks s u := by
  constructor
  · intro h
    cases he.fails_of_step h with
    | breaks h => exact h
  · intro h
    obtain ⟨stage, env⟩ := e
    cases h with
    | @range attr name key argument g f hstage hfield hcurrent hf hlong =>
      have hupdate := FieldDefinition.update_eq_unwritable.2 ⟨hlong, rfl⟩
      have henv : env.updateField attr argument = .error (.unwritable .tooManyDigits) := by
        unfold Environment.updateField Group.updateField
        dsimp only at hfield hcurrent
        simp only [hfield, hcurrent, hf, hupdate, Except.map, EnvironmentError.ofUpdate]
      rcases hstage with rfl | rfl <;> simp only [step, act, henv, Except.map]
    | @terminator name value u hstage hbreaks =>
      obtain ⟨g, hg⟩ := Option.isSome_iff_exists.1 (he.generator.2 (.inl hstage))
      have hupdate : g.update name value = _ := Generator.update_eq_unwritable.2 hbreaks
      have henv : env.setParameter name value = .error (.unwritable u) := by
        unfold Environment.setParameter Environment.getGenerator
        dsimp only at hg
        simp only [hg, hupdate, EnvironmentError.ofUpdate]
      obtain rfl : stage = _ := hstage
      simp only [step, act, henv, Except.map]

/-! ## Sorts of problems -/

namespace Refuses

/-- A problem of a statement is of one of three sorts. -/
theorem kind (h : e.Refuses s p) :
    p.kind = .grammar ∨ p.kind = .notFinished ∨ p.kind = .expression := by
  cases h with
  | unfinished => exact .inr (.inl rfl)
  | badAttribute hd => exact (FieldDefinition.code_of_update hd).kind.imp_right .inr
  | badParameter hg => exact .inl (Problem.kind_of_invalidParameter (Generator.code_of_update hg))
  | _ => exact .inl rfl

/-- A program is not finished where it ends within a group, and only there. -/
theorem kind_eq_notFinished_iff (h : e.Refuses s p) :
    p.kind = .notFinished ↔ s = .run ∧ e.stage.InGroup := by
  constructor
  · intro hkind
    cases h with
    | unfinished hstage => exact ⟨rfl, hstage⟩
    | badAttribute hd =>
      rcases (FieldDefinition.code_of_update hd).kind with h | h <;> cases h.symm.trans hkind
    | badParameter hg =>
      cases (Problem.kind_of_invalidParameter (Generator.code_of_update hg)).symm.trans hkind
    | _ => cases hkind
  · rintro ⟨rfl, hstage⟩
    cases h with
    | unfinished => rfl
    | noGroup hstarted => simp [hstarted, Stage.InGroup] at hstage
    | misplaced _ hs => exact absurd hstage (hs rfl)
    | duplicateField hs => simp at hs

end Refuses

/-- The refusal comes from none of the branches that guard against what cannot come about. -/
structure Unguarded (e : Evaluator) (s : Statement) (error : EnvironmentError) : Prop where
  /-- There is no generator before the only one. -/
  singleGenerate : error ≠ .problem .singleGenerate
  /-- A group is missing before the first one alone. -/
  defineRequired : error = .problem .defineRequired → e.stage = .started
  /-- The current group has an entry. -/
  danglingGroup : ∀ key, error ≠ .danglingGroup key
  /-- The field that is updated is one of the group. -/
  fieldNotFound : ∀ attr argument, s = .updateField attr argument →
    ∀ name group, error ≠ .problem (.fieldNotFound name group)

/-- A problem of a statement comes from no guard. -/
theorem Refuses.unguarded (h : e.Refuses s p) : e.Unguarded s (.problem p) := by
  refine ⟨?_, ?_, nofun, ?_⟩
  · rintro ⟨⟩
    cases h with
    | badAttribute hd => exact Problem.not_ofAttribute rfl (FieldDefinition.code_of_update hd)
    | badParameter hg => cases Generator.code_of_update hg
  · rintro ⟨⟩
    cases h with
    | noGroup hstage => exact hstage
    | badAttribute hd =>
      exact absurd (FieldDefinition.code_of_update hd) (Problem.not_ofAttribute rfl)
    | badParameter hg => cases Generator.code_of_update hg
  · rintro attr argument rfl name group ⟨⟩
    cases h with
    | badAttribute hd => exact Problem.not_ofAttribute rfl (FieldDefinition.code_of_update hd)

/-- No error of a statement comes from a guard. -/
theorem Fails.unguarded (h : e.Fails s error) : e.Unguarded s error := by
  cases h with
  | refuses h => exact h.unguarded
  | breaks => exact ⟨nofun, nofun, nofun, nofun⟩

/-! ## Evaluations -/

/-- A run fails with the first statement that is not taken. -/
theorem run_eq_error : e.run ss = .error error ↔
    ∃ front s rest mid, ss = front ++ s :: rest ∧ e.run front = .ok mid ∧
      mid.step s = .error error :=
  foldlM_eq_error

/-- An evaluation fails with the first statement that is not taken, or else at the end. -/
theorem evaluate_eq_error : evaluate ⟨ss⟩ = .error error ↔
    (∃ e, run {} ss = .ok e ∧ e.stage ≠ .finished ∧
      error = .problem (.programNotFinished e.stage.name)) ∨
    ∃ front s rest e, ss = front ++ s :: rest ∧ run {} front = .ok e ∧
      e.step s = .error error := by
  rw [← run_eq_error]
  unfold evaluate
  dsimp only
  cases hrun : run {} ss with
  | error error' => simp
  | ok e =>
    by_cases hstage : e.stage = .finished
    · simp [hstage]
    · simp [hstage, @eq_comm _ error]

/-- An evaluation fails with a problem of one of three sorts, or for what cannot be written. -/
theorem kind_of_evaluate (h : evaluate ⟨ss⟩ = .error error) :
    (∃ p, error = .problem p ∧
      (p.kind = .grammar ∨ p.kind = .notFinished ∨ p.kind = .expression)) ∨
    ∃ u, error = .unwritable u := by
  obtain ⟨e, -, -, rfl⟩ | ⟨front, s, rest, e, -, hrun, hstep⟩ := evaluate_eq_error.1 h
  · exact .inl ⟨_, rfl, .inr (.inl rfl)⟩
  · cases (standing_of_run hrun).consistent.fails_of_step hstep with
    | refuses hp => exact .inl ⟨_, rfl, hp.kind⟩
    | breaks => exact .inr ⟨_, rfl⟩

/-- An evaluation fails for what cannot be written exactly if the first statement that is not taken
holds it. -/
theorem evaluate_eq_unwritable : evaluate ⟨ss⟩ = .error (.unwritable u) ↔
    ∃ front s rest e, ss = front ++ s :: rest ∧ run {} front = .ok e ∧ e.Breaks s u := by
  rw [evaluate_eq_error]
  constructor
  · rintro (⟨e, -, -, ⟨⟩⟩ | ⟨front, s, rest, e, rfl, hrun, hstep⟩)
    have hconsistent := (standing_of_run hrun).consistent
    exact ⟨front, s, rest, e, rfl, hrun, hconsistent.step_eq_unwritable.1 hstep⟩
  · rintro ⟨front, s, rest, e, rfl, hrun, hbreaks⟩
    have hconsistent := (standing_of_run hrun).consistent
    exact .inr ⟨front, s, rest, e, rfl, hrun, hconsistent.step_eq_unwritable.2 hbreaks⟩

/-- A program is not finished if all its statements are taken and lead elsewhere than to the end, or
if it ends within a group. -/
theorem evaluate_notFinished_iff :
    (∃ p, evaluate ⟨ss⟩ = .error (.problem p) ∧ p.kind = .notFinished) ↔
      (∃ e, run {} ss = .ok e ∧ e.stage ≠ .finished) ∨
        ∃ front rest e, ss = front ++ .run :: rest ∧ run {} front = .ok e ∧ e.stage.InGroup := by
  constructor
  · rintro ⟨p, heval, hkind⟩
    obtain ⟨e, hrun, hstage, -⟩ | ⟨front, s, rest, e, rfl, hrun, hstep⟩ :=
      evaluate_eq_error.1 heval
    · exact .inl ⟨e, hrun, hstage⟩
    · cases (standing_of_run hrun).consistent.fails_of_step hstep with
      | refuses hp =>
        obtain ⟨rfl, hgroup⟩ := hp.kind_eq_notFinished_iff.1 hkind
        exact .inr ⟨front, rest, e, rfl, hrun, hgroup⟩
  · rintro (⟨e, hrun, hstage⟩ | ⟨front, rest, e, rfl, hrun, hgroup⟩)
    · exact ⟨_, evaluate_eq_error.2 (.inl ⟨e, hrun, hstage, rfl⟩), rfl⟩
    · have hstep : e.step .run = .error (.problem (.programNotFinished e.stage.name)) := by
        obtain ⟨stage, env⟩ := e
        rcases hgroup with rfl | rfl | rfl <;> rfl
      exact ⟨_, evaluate_eq_error.2 (.inr ⟨front, .run, rest, e, rfl, hrun, hstep⟩), rfl⟩

/-- An evaluation succeeds, or it fails with a problem of grammar, of an argument's shape or of a
program that is not finished, or for what cannot be written. A program is not finished exactly if
all statements are taken and lead elsewhere than to the end, or if the first one that is not taken
ends the program within a group; and what cannot be written is a bound too long to be named by the
refusal of a range, or the text of a terminator without bytes, in the first statement that is not
taken. Whatever statements were taken and not taken before, the current group is there within
groups, and no error comes from a branch that guards against what cannot come about. -/
theorem evaluate_failures (ss : List Statement) :
    ((∃ env, evaluate ⟨ss⟩ = .ok env) ∨
      (∃ p, evaluate ⟨ss⟩ = .error (.problem p) ∧
        (p.kind = .grammar ∨ p.kind = .notFinished ∨ p.kind = .expression)) ∨
      ∃ u, evaluate ⟨ss⟩ = .error (.unwritable u)) ∧
    (∀ u, evaluate ⟨ss⟩ = .error (.unwritable u) ↔
      ∃ front s rest e, ss = front ++ s :: rest ∧ run {} front = .ok e ∧ e.Breaks s u) ∧
    ((∃ p, evaluate ⟨ss⟩ = .error (.problem p) ∧ p.kind = .notFinished) ↔
      (∃ e, run {} ss = .ok e ∧ e.stage ≠ .finished) ∨
        ∃ front rest e, ss = front ++ .run :: rest ∧ run {} front = .ok e ∧ e.stage.InGroup) ∧
    ((after {} ss).stage.InGroup → ∃ key g, (after {} ss).env.current = .ok (key, g)) ∧
    ∀ s error, ((take s).apply (after {} ss)).1 = .error error →
      (after {} ss).Unguarded s error := by
  have hconsistent := consistent_after ss
  refine ⟨?_, fun _ => evaluate_eq_unwritable, evaluate_notFinished_iff, ?_, ?_⟩
  · cases heval : evaluate ⟨ss⟩ with
    | ok env => exact .inl ⟨env, rfl⟩
    | error error =>
      obtain ⟨p, rfl, hkind⟩ | ⟨u, rfl⟩ := kind_of_evaluate heval
      · exact .inr (.inl ⟨p, rfl, hkind⟩)
      · exact .inr (.inr ⟨u, rfl⟩)
  · intro hstage
    obtain ⟨key, g, hcurrent, -⟩ := hconsistent.current hstage
    exact ⟨key, g, hcurrent⟩
  · intro s error h
    rw [apply_take, Edit.allOrNothing_eq_error] at h
    exact (hconsistent.fails_of_step h).unguarded

/-- A program whose terminator is a text of one surrogate. -/
def surrogateProgram : Program where
  statements := [.startGroup "a", .variableField "u8" none, .startGenerator "a",
    .setParameter "TERM" (.literal (.text (.singleton (.ofNat 0xD800)))), .run]

/-- Its evaluation gives no environment, and the failure is no problem of the program. -/
theorem surrogateProgram_unwritable : (¬ ∃ env, evaluate surrogateProgram = .ok env) ∧
    ¬ ∃ p, evaluate surrogateProgram = .error (.problem p) := by
  have herror : evaluate surrogateProgram =
      .error (.unwritable (.uncovered .utf8 (.ofNat 0xD800) 0 1)) := by decide +kernel
  rw [herror]
  exact ⟨nofun, nofun⟩

end Evaluator

end ByteLayout
