import ByteLayout.Proofs.GroupEvaluation
import Mathlib.Data.List.Nodup

/-!
# Evaluation reads outlines

`evaluate_eq_ok_iff_outline`: a program has an environment exactly when its statements are those of
a well formed outline that stands for this environment.

From an outline to its evaluation the groups and the generator are taken one after the other. In the
other direction a run that comes to the end of a program has the statements of an outline, which
grows by each statement that is taken.
-/

namespace ByteLayout

open Evaluator

variable {g : Group} {name n : Text}

/-! ## Rows of groups -/

section Groups

variable {earlier : List (Text × Group)} {stage : Stage} {selected : Option Text}
  {e : Evaluator} {ts : List GroupOutline} {t : GroupOutline} {gs : List Group}

/-- No group is found under a key that no entry has. -/
theorem Environment.group?_eq_none {env : Environment} :
    env.group? name = none ↔ ∀ entry ∈ env.groups, entry.1 ≠ name := by
  simp [Environment.group?]

/-- Where no two groups have the same key, a group is found under its key. -/
theorem Environment.group?_eq_some {env : Environment} (h : (env.groups.map Prod.fst).Nodup) :
    env.group? name = some g ↔ (name, g) ∈ env.groups := by
  obtain ⟨groups, generator, currentGroup, currentField⟩ := env
  unfold Environment.group?
  dsimp only at h ⊢
  induction groups with
  | nil => simp
  | cons entry groups ih =>
    obtain ⟨key, g'⟩ := entry
    rw [List.map_cons, List.nodup_cons] at h
    by_cases hkey : key = name
    · subst hkey
      have hnew : (key, g) ∉ groups := fun hin => h.1 (List.mem_map.2 ⟨_, hin, rfl⟩)
      simp [hnew, eq_comm]
    · rw [List.find?_cons_of_neg (by simpa using hkey), ih h.2]
      simp [Ne.symm hkey]

/-- A program begins with a group. -/
theorem takes_firstGroup : Takes {} (.startGroup n) e ↔
    e = within [] { name := n } .definingFields none := by
  constructor
  · intro h
    cases h with
    | startGroup hstage henv =>
      obtain ⟨-, rfl⟩ := Environment.createGroup_eq_ok.1 henv
      rfl
  · rintro rfl
    exact .startGroup (.inl rfl) (Environment.createGroup_eq_ok.2 ⟨rfl, rfl⟩)

/-- A group begins after another one if it has a new name. -/
theorem takes_nextGroup (hstage : stage.InGroup) :
    Takes (within earlier g stage selected) (.startGroup n) e ↔
      (∀ entry ∈ earlier ++ [(g.name, g)], entry.1 ≠ n) ∧
        e = within (earlier ++ [(g.name, g)]) { name := n } .definingFields none := by
  constructor
  · intro h
    cases h with
    | startGroup _ henv =>
      obtain ⟨hnew, rfl⟩ := Environment.createGroup_eq_ok.1 henv
      exact ⟨Environment.group?_eq_none.1 hnew, rfl⟩
  · rintro ⟨hnew, rfl⟩
    exact .startGroup (.inr hstage)
      (Environment.createGroup_eq_ok.2 ⟨Environment.group?_eq_none.2 hnew, rfl⟩)

/-- Groups under their names. -/
def keyed (gs : List Group) : List (Text × Group) :=
  gs.map fun g => (g.name, g)

/-- Groups have the names of their outlines. -/
theorem names_of_groups (h : List.Forall₂ GroupOutline.Means ts gs) :
    gs.map Group.name = ts.map GroupOutline.name := by
  induction h with
  | nil => rfl
  | cons ht _ ih => rw [List.map_cons, List.map_cons, ht.name, ih]

/-- No group of some outlines has another name than they have. -/
theorem forall_keyed (h : List.Forall₂ GroupOutline.Means ts gs) :
    (∀ entry ∈ keyed gs, entry.1 ≠ n) ↔ n ∉ ts.map GroupOutline.name := by
  rw [← names_of_groups h, keyed, List.forall_mem_map, List.mem_map]
  simp

/-- Names stay apart as long as each new one is new. -/
theorem nodup_concat : ((ts ++ [t]).map GroupOutline.name).Nodup ↔
    (ts.map GroupOutline.name).Nodup ∧ t.name ∉ ts.map GroupOutline.name := by
  rw [List.map_append, List.map_singleton, ← List.concat_eq_append, List.nodup_concat, and_comm]

/-- Groups are evaluated from the beginning on exactly when their outlines are well formed, stand
for groups and have different names; the evaluator is then within the last one. -/
theorem run_groups (ts : List GroupOutline) (t : GroupOutline) (e : Evaluator) :
    run {} ((ts ++ [t]).flatMap GroupOutline.statements) = .ok e ↔
      (∀ u ∈ ts ++ [t], u.WellFormed) ∧ ((ts ++ [t]).map GroupOutline.name).Nodup ∧
        ∃ gs g, List.Forall₂ GroupOutline.Means ts gs ∧ t.Means g ∧
          e = within (keyed gs) g t.stage t.selected := by
  induction ts using List.reverseRecOn generalizing t e with
  | nil =>
    have hall : t.Evaluated [] := t.evaluated (by simp)
    have hgroup := hall e
    simp only [List.nil_append, List.flatMap_singleton, GroupOutline.statements, run_cons,
      takes_firstGroup, exists_eq_left, hgroup]
    simp [keyed]
  | append_singleton ts u ih =>
    have hsplit : (ts ++ [u] ++ [t]).flatMap GroupOutline.statements =
        (ts ++ [u]).flatMap GroupOutline.statements ++ (.startGroup t.name :: t.contents) := by
      simp [GroupOutline.statements]
    rw [hsplit, run_append, nodup_concat, List.forall_mem_append, List.forall_mem_singleton]
    constructor
    · rintro ⟨mid, hmid, hrun⟩
      obtain ⟨hall, hnodup, gs, g, hgs, hg, rfl⟩ := (ih u mid).1 hmid
      obtain ⟨begun, hbegun, hrun⟩ := run_cons.1 hrun
      obtain ⟨hnew, rfl⟩ := (takes_nextGroup u.inGroup_stage).1 hbegun
      obtain ⟨hwf, g', hg', rfl⟩ := (t.evaluated hnew e).1 hrun
      have hgs' : List.Forall₂ GroupOutline.Means (ts ++ [u]) (gs ++ [g]) :=
        forall₂_concat.2 ⟨gs, g, rfl, hgs, hg⟩
      have hkeyed : keyed gs ++ [(g.name, g)] = keyed (gs ++ [g]) := by simp [keyed]
      rw [hkeyed] at hnew ⊢
      exact ⟨⟨hall, hwf⟩, ⟨hnodup, (forall_keyed hgs').1 hnew⟩, gs ++ [g], g', hgs', hg', rfl⟩
    · rintro ⟨⟨hall, hwf⟩, ⟨hnodup, hfresh⟩, gs', g', hgs', hg', rfl⟩
      have hnew := (forall_keyed hgs').2 hfresh
      obtain ⟨gs, g, rfl, hgs, hg⟩ := forall₂_concat.1 hgs'
      have hkeyed : keyed (gs ++ [g]) = keyed gs ++ [(g.name, g)] := by simp [keyed]
      rw [hkeyed] at hnew ⊢
      exact ⟨_, (ih u _).2 ⟨hall, hnodup, gs, g, hgs, hg, rfl⟩, run_cons.2
        ⟨_, (takes_nextGroup u.inGroup_stage).2 ⟨hnew, rfl⟩,
          (t.evaluated hnew _).2 ⟨hwf, g', hg', rfl⟩⟩⟩

end Groups

/-! ## The generator -/

section GeneratorStatements

variable {env : Environment} {e : Evaluator} {start final : Generator} {ps : List (Text × Expr)}

/-- Parameters are set one after the other. -/
theorem Generator.setAll_cons {p : Text × Expr} : start.setAll (p :: ps) = .ok final ↔
    ∃ mid, start.update p.1 p.2 = .ok mid ∧ mid.setAll ps = .ok final :=
  foldlM_cons_eq_ok

/-- Parameters are set on the generator that is there. -/
theorem run_parameters (henv : env.generator = some start) :
    run ⟨.definingGenerator, env⟩ (ps.map fun p => .setParameter p.1 p.2) = .ok e ↔
      ∃ final, start.setAll ps = .ok final ∧
        e = ⟨.definingGenerator, { env with generator := some final }⟩ := by
  induction ps generalizing env start with
  | nil =>
    have hsame : ({ env with generator := some start } : Environment) = env := by
      rw [← henv]
    simp only [List.map_nil, run_nil, Generator.setAll, List.foldlM_nil, pure, Except.pure,
      Except.ok.injEq, exists_eq_left', hsame]
    exact eq_comm
  | cons p ps ih =>
    rw [List.map_cons, run_cons]
    simp only [Generator.setAll_cons]
    constructor
    · rintro ⟨mid, htakes, hrun⟩
      cases htakes with
      | setParameter hset =>
        obtain ⟨g, g', hg, hg', rfl⟩ := Environment.setParameter_eq_ok.1 hset
        cases henv.symm.trans hg
        obtain ⟨final, hfinal, rfl⟩ := (ih rfl).1 hrun
        exact ⟨final, ⟨g', hg', hfinal⟩, rfl⟩
    · rintro ⟨final, ⟨g', hg', hfinal⟩, rfl⟩
      exact ⟨_, .setParameter (Environment.setParameter_eq_ok.2 ⟨start, g', henv, hg', rfl⟩),
        (ih rfl).2 ⟨final, hfinal, rfl⟩⟩

/-- After a group, the generator is taken with its parameters, if it takes them. -/
theorem run_generator {earlier : List (Text × Group)} {stage : Stage}
    {selected : Option Text} (hstage : stage.InGroup) (t : GeneratorOutline) (e : Evaluator) :
    (within earlier g stage selected).run t.statements = .ok e ↔
      ∃ generator, t.Means generator ∧ e = ⟨.definingGenerator,
        { Environment.within earlier g selected with generator := some generator }⟩ := by
  rw [GeneratorOutline.statements, run_cons]
  constructor
  · rintro ⟨mid, htakes, hrun⟩
    cases htakes with
    | startGenerator _ henv =>
      obtain ⟨-, rfl⟩ := Environment.createGenerator_eq_ok.1 henv
      obtain ⟨generator, hmeans, rfl⟩ := (run_parameters rfl).1 hrun
      exact ⟨generator, hmeans, rfl⟩
  · rintro ⟨generator, hmeans, rfl⟩
    have henv : (Environment.within earlier g selected).createGenerator t.group = .ok
        { Environment.within earlier g selected with generator := some { group := t.group } } :=
      Environment.createGenerator_eq_ok.2 ⟨rfl, rfl⟩
    exact ⟨_, .startGenerator hstage henv, (run_parameters rfl).2 ⟨generator, hmeans, rfl⟩⟩

end GeneratorStatements

/-! ## Programs -/

namespace Evaluator

/-- The statements are those of an outline up to the stage. -/
def Shape (stage : Stage) (ss : List Statement) : Prop :=
  match stage with
  | .started => ss = []
  | .definingFields | .definingFieldAttributes | .updatingFieldAttributes =>
    ∃ ts t, ss = (ts ++ [t]).flatMap GroupOutline.statements
  | .definingGenerator =>
    ∃ ts t u, ss = (ts ++ [t]).flatMap GroupOutline.statements ++ GeneratorOutline.statements u
  | .finished => ∃ ts t u, ss = Outline.statements ⟨ts ++ [t], u⟩

/-- Within a group the statements are those of whole groups. -/
theorem shape_of_inGroup {stage : Stage} {ss : List Statement} (h : stage.InGroup) :
    Shape stage ss ↔ ∃ ts t, ss = (ts ++ [t]).flatMap GroupOutline.statements := by
  rcases h with rfl | rfl | rfl <;> exact Iff.rfl

/-- Before its section a group has none. -/
theorem fieldsSection_of_stage {t : GroupOutline}
    (h : t.stage = .definingFields ∨ t.stage = .definingFieldAttributes) :
    t.fieldsSection = none := by
  cases hsection : t.fieldsSection with
  | none => rfl
  | some selections => simp [GroupOutline.stage, hsection] at h

/-- A statement that is taken within a group begins the next group or the generator, or the outline
of the group goes on with it. -/
theorem outline_takes {earlier : List (Text × Group)} {t : GroupOutline} {s : Statement}
    {e : Evaluator} (h : Takes (within earlier g t.stage t.selected) s e) :
    (∃ n, s = .startGroup n ∧ e.stage = .definingFields) ∨
      (∃ n, s = .startGenerator n ∧ e.stage = .definingGenerator) ∨
        e.stage.InGroup ∧ ∃ t' : GroupOutline, t'.statements = t.statements ++ [s] := by
  have hinGroup := t.inGroup_stage
  have hnone := fieldsSection_of_stage (t := t)
  generalize hstage : t.stage = stage at h hinGroup hnone
  generalize hselected : t.selected = selected at h
  obtain ⟨n, body, fieldsSection⟩ := t
  cases h with
  | startGroup => exact .inl ⟨_, rfl, rfl⟩
  | startGenerator => exact .inr (.inl ⟨_, rfl, rfl⟩)
  | @variableField _ _ _ kind name _ hfields _ _ =>
    obtain rfl : fieldsSection = none := hnone hfields
    refine .inr (.inr ⟨.inl rfl, ⟨n, body ++ [.declaration ⟨.random kind, name⟩], none⟩, ?_⟩)
    simp [GroupOutline.statements, GroupOutline.contents, BodyItem.statements,
      Declaration.statement]
  | @constantField _ _ _ l name _ hfields _ _ =>
    obtain rfl : fieldsSection = none := hnone hfields
    refine .inr (.inr ⟨.inl rfl, ⟨n, body ++ [.declaration ⟨.constant l, name⟩], none⟩, ?_⟩)
    simp [GroupOutline.statements, GroupOutline.contents, BodyItem.statements,
      Declaration.statement]
  | @selectField _ _ m _ =>
    obtain rfl : fieldsSection = none := hnone (.inl rfl)
    refine .inr (.inr ⟨.inr (.inl rfl), ⟨n, body ++ [.selection ⟨m, []⟩], none⟩, ?_⟩)
    simp [GroupOutline.statements, GroupOutline.contents, BodyItem.statements,
      Selection.statements]
  | @selectInSection _ _ m _ =>
    cases fieldsSection with
    | none => rcases GroupOutline.stage_body n body with h | h <;> rw [h] at hstage <;> cases hstage
    | some selections =>
      refine .inr (.inr ⟨.inr (.inr rfl), ⟨n, body, some (selections ++ [⟨m, []⟩])⟩, ?_⟩)
      simp [GroupOutline.statements, GroupOutline.contents, Selection.statements]
  | @updateField _ _ _ attr argument _ henv =>
    refine .inr (.inr ⟨hinGroup, ?_⟩)
    obtain ⟨m, -, -, -, hm, -, -, -, -⟩ := Environment.updateField_eq_ok.1 henv
    replace hselected := hselected.trans hm
    cases fieldsSection with
    | none =>
      obtain ⟨s, hs, rfl⟩ := Option.map_eq_some_iff.1 hselected
      obtain ⟨item, hitem, hitem'⟩ := Option.bind_eq_some_iff.1 hs
      clear hs
      obtain ⟨before, rfl⟩ := List.getLast?_eq_some_iff.1 hitem
      cases item with
      | declaration d => cases hitem'
      | selection s' =>
        cases hitem'
        refine ⟨⟨n, before ++ [.selection ⟨s.name, s.clauses ++ [⟨attr, argument⟩]⟩], none⟩, ?_⟩
        simp [GroupOutline.statements, GroupOutline.contents, BodyItem.statements,
          Selection.statements, Clause.statement]
    | some selections =>
      obtain ⟨s, hs, rfl⟩ := Option.map_eq_some_iff.1 hselected
      obtain ⟨before, rfl⟩ := List.getLast?_eq_some_iff.1 hs
      refine ⟨⟨n, body, some (before ++ [⟨s.name, s.clauses ++ [⟨attr, argument⟩]⟩])⟩, ?_⟩
      simp [GroupOutline.statements, GroupOutline.contents, Selection.statements,
        Clause.statement]
  | startFieldsSection =>
    obtain rfl : fieldsSection = none := hnone (.inl rfl)
    refine .inr (.inr ⟨.inr (.inr rfl), ⟨n, body, some []⟩, ?_⟩)
    simp [GroupOutline.statements, GroupOutline.contents]
  | setParameter | run => rcases hinGroup with h | h | h <;> cases h

/-- Statements that are taken from the beginning on are those of an outline up to the stage. -/
theorem shape_of_run {ss : List Statement} {e : Evaluator} (h : run {} ss = .ok e) :
    Shape e.stage ss := by
  induction ss using List.reverseRecOn generalizing e with
  | nil =>
    cases h
    rfl
  | append_singleton ss s ih =>
    obtain ⟨mid, hmid, htakes⟩ := run_concat.1 h
    have hshape := ih hmid
    by_cases hstage : mid.stage.InGroup
    · obtain ⟨ts, t, rfl⟩ := (shape_of_inGroup hstage).1 hshape
      obtain ⟨-, -, gs, g, -, -, rfl⟩ := (run_groups ts t mid).1 hmid
      obtain ⟨n, rfl, hnext⟩ | ⟨n, rfl, hnext⟩ | ⟨hnext, t', ht'⟩ := outline_takes htakes
      · rw [hnext]
        exact ⟨ts ++ [t], ⟨n, [], none⟩, by simp [GroupOutline.statements, GroupOutline.contents]⟩
      · rw [hnext]
        exact ⟨ts, t, ⟨n, []⟩, rfl⟩
      · rw [shape_of_inGroup hnext]
        exact ⟨ts, t', by simp [ht']⟩
    · cases htakes with
      | startGroup hstart henv =>
        rcases hstart with rfl | hstart
        · obtain rfl : ss = [] := hshape
          exact ⟨[], ⟨_, [], none⟩, rfl⟩
        · exact absurd hstart hstage
      | variableField hfields | constantField hfields =>
        exact absurd (hfields.elim .inl fun h => .inr (.inl h)) hstage
      | selectField | startFieldsSection => exact absurd (.inl rfl) hstage
      | selectInSection => exact absurd (.inr (.inr rfl)) hstage
      | updateField hattributes => exact absurd (.inr hattributes) hstage
      | startGenerator hin => exact absurd hin hstage
      | @setParameter _ _ name value _ =>
        obtain ⟨ts, t, u, rfl⟩ := hshape
        exact ⟨ts, t, ⟨u.group, u.parameters ++ [(name, value)]⟩,
          by simp [GeneratorOutline.statements]⟩
      | run =>
        obtain ⟨ts, t, u, rfl⟩ := hshape
        exact ⟨ts, t, u, by simp [Outline.statements]⟩

/-- The statements of an outline are taken up to the end of the program exactly when the outline is
well formed and stands for an environment. -/
theorem run_outline (ts : List GroupOutline) (t : GroupOutline) (u : GeneratorOutline)
    (e : Evaluator) : run {} (Outline.statements ⟨ts ++ [t], u⟩) = .ok e ↔
      Outline.WellFormed ⟨ts ++ [t], u⟩ ∧
        ∃ env, Outline.Means ⟨ts ++ [t], u⟩ env ∧ e = ⟨.finished, env⟩ := by
  rw [Outline.statements, run_append]
  simp only [run_concat]
  constructor
  · rintro ⟨mid, hmid, last, hlast, htakes⟩
    obtain ⟨hall, hnodup, gs, g, hgs, hg, rfl⟩ := (run_groups ts t mid).1 hmid
    obtain ⟨generator, hu, rfl⟩ := (run_generator t.inGroup_stage u last).1 hlast
    cases htakes with
    | run =>
      refine ⟨⟨by simp, hall, hnodup⟩, _,
        ⟨gs ++ [g], generator, forall₂_concat.2 ⟨gs, g, rfl, hgs, hg⟩, hu, rfl⟩, ?_⟩
      simp [Environment.clearCurrent, Environment.within, keyed]
  · rintro ⟨hwf, env, ⟨gs', generator, hgs', hu, rfl⟩, rfl⟩
    obtain ⟨gs, g, rfl, hgs, hg⟩ := forall₂_concat.1 hgs'
    refine ⟨_, (run_groups ts t _).2 ⟨hwf.groups, hwf.nodup, gs, g, hgs, hg, rfl⟩, _,
      (run_generator t.inGroup_stage u _).2 ⟨generator, hu, rfl⟩, ?_⟩
    have hend : (⟨(gs ++ [g]).map fun g => (g.name, g), some generator, none, none⟩ :
        Environment) = Environment.clearCurrent
          { Environment.within (keyed gs) g t.selected with generator := some generator } := by
      simp [Environment.clearCurrent, Environment.within, keyed]
    rw [hend]
    exact .run

/-- A program is taken to its end exactly when its statements are those of a well formed outline
that stands for the environment. -/
theorem run_finished_iff {ss : List Statement} {env : Environment} :
    run {} ss = .ok ⟨.finished, env⟩ ↔
      ∃ o : Outline, o.statements = ss ∧ o.WellFormed ∧ o.Means env := by
  constructor
  · intro h
    obtain ⟨ts, t, u, rfl⟩ := shape_of_run h
    obtain ⟨hwf, env', hmeans, heq⟩ := (run_outline ts t u _).1 h
    cases heq
    exact ⟨_, rfl, hwf, hmeans⟩
  · rintro ⟨⟨groups, u⟩, rfl, hwf, hmeans⟩
    rcases List.eq_nil_or_concat groups with rfl | ⟨ts, t, heq⟩
    · exact absurd rfl hwf.ne_nil
    · rw [List.concat_eq_append] at heq
      subst heq
      exact (run_outline ts t u _).2 ⟨hwf, env, hmeans, rfl⟩

end Evaluator

/-- A program has an environment if its run comes to the end. -/
theorem evaluate_eq_ok {p : Program} {env : Environment} : evaluate p = .ok env ↔
    Evaluator.run {} p.statements = .ok ⟨.finished, env⟩ := by
  unfold evaluate
  cases hrun : Evaluator.run {} p.statements with
  | error e => simp
  | ok e =>
    obtain ⟨stage, env'⟩ := e
    by_cases hstage : stage = .finished <;> simp [hstage]

/-- A program has an environment exactly when its statements are those of a well formed outline that
stands for the environment: groups of different names with their fields in order, each with the
clauses of its selections set, and the generator with its parameters set. -/
theorem evaluate_eq_ok_iff_outline (p : Program) (env : Environment) : evaluate p = .ok env ↔
    ∃ o : Outline, o.statements = p.statements ∧ o.WellFormed ∧ o.Means env := by
  rw [evaluate_eq_ok]
  exact Evaluator.run_finished_iff

end ByteLayout
