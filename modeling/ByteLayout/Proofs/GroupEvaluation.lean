import ByteLayout.Proofs.OutlineGrowth

/-!
# Evaluating a group

`GroupOutline.evaluated`: after groups of other names, the statements of a group are taken exactly
when its outline is well formed and stands for a group, and the evaluator is then within this group.

The proof goes along the outline, from its beginning on. At each part the evaluator stands `within`
the group that the outline stands for up to there, and the part is taken exactly when the outline
with the part is still well formed and stands for a group.
-/

namespace ByteLayout

open Evaluator

variable {g g' : Group} {attr : Text} {argument : Expr} {n m : Text}
  {body : List BodyItem} {d : Declaration} {cs : List Clause} {c : Clause}

/-! ## Evaluators within a group -/

/-- The environment within a group that comes after earlier ones, with a field selected. -/
def Environment.within (earlier : List (Text × Group)) (g : Group) (selected : Option Text) :
    Environment :=
  ⟨earlier ++ [(g.name, g)], none, some g.name, selected⟩

/-- The evaluator at a stage within a group. -/
def Evaluator.within (earlier : List (Text × Group)) (g : Group) (stage : Stage)
    (selected : Option Text) : Evaluator :=
  ⟨stage, .within earlier g selected⟩

section Within

variable {earlier : List (Text × Group)} {stage : Stage} {selected : Option Text}
  {e : Evaluator}

/-- A group is found under its name if no earlier one has it. -/
theorem group?_within (hnew : ∀ entry ∈ earlier, entry.1 ≠ g.name) (generator : Option Generator)
    (current selected : Option Text) :
    (Environment.mk (earlier ++ [(g.name, g)]) generator current selected).group? g.name =
      some g := by
  have hnone : earlier.find? (fun entry => entry.1 = g.name) = none := by
    rw [List.find?_eq_none]
    intro entry hentry
    simpa using hnew entry hentry
  rw [Environment.group?, List.find?_append, hnone]
  simp

/-- The current group stands at the end and is put back there. -/
theorem putGroup_within (hnew : ∀ entry ∈ earlier, entry.1 ≠ g.name) (hname : g'.name = g.name) :
    Environment.putGroup g.name g' (earlier ++ [(g.name, g)]) = earlier ++ [(g'.name, g')] := by
  induction earlier with
  | nil => simp [Environment.putGroup, hname]
  | cons entry earlier ih =>
    rw [List.forall_mem_cons] at hnew
    rw [List.cons_append, Environment.putGroup, if_neg hnew.1, ih hnew.2]
    rfl

/-- The current group is put in the place of the one that is there. -/
theorem put_within (hnew : ∀ entry ∈ earlier, entry.1 ≠ g.name) (hname : g'.name = g.name) :
    (⟨Environment.putGroup g.name g' (earlier ++ [(g.name, g)]), none, some g.name, selected⟩ :
      Environment) = Environment.within earlier g' selected := by
  rw [putGroup_within hnew hname, Environment.within, hname]

/-- A field goes to the current group. -/
theorem createField_within (hnew : ∀ entry ∈ earlier, entry.1 ≠ g.name) {env : Environment}
    {start : FieldDefinition} {name : Option Text} :
    (Environment.within earlier g selected).createField start name = .ok env ↔
      ∃ g', g.addField ⟨start, name⟩ = .ok g' ∧ env = Environment.within earlier g' selected := by
  have hgroup := group?_within hnew none (some g.name) selected
  rw [Environment.createField_eq_ok]
  constructor
  · rintro ⟨key, g₁, g', hkey, hg₁, hadd, rfl⟩
    cases hkey
    cases hgroup.symm.trans hg₁
    have hname : g'.name = g.name := by rw [(Group.addField_eq_ok.1 hadd).2]
    exact ⟨g', hadd, put_within hnew hname⟩
  · rintro ⟨g', hadd, rfl⟩
    have hname : g'.name = g.name := by rw [(Group.addField_eq_ok.1 hadd).2]
    exact ⟨g.name, g, g', rfl, hgroup, hadd, (put_within hnew hname).symm⟩

/-- An attribute goes to the selected field of the current group. -/
theorem updateField_within (hnew : ∀ entry ∈ earlier, entry.1 ≠ g.name) {env : Environment} :
    (Environment.within earlier g selected).updateField attr argument = .ok env ↔
      ∃ m g', selected = some m ∧ g.updateField m attr argument = .ok g' ∧
        env = Environment.within earlier g' selected := by
  have hgroup := group?_within hnew none (some g.name) selected
  rw [Environment.updateField_eq_ok]
  constructor
  · rintro ⟨m, key, g₁, g', hm, hkey, hg₁, hupdate, rfl⟩
    cases hkey
    cases hgroup.symm.trans hg₁
    obtain ⟨f, d', -, -, heq⟩ := Group.updateField_eq_ok.1 hupdate
    have hname : g'.name = g.name := by rw [heq]
    exact ⟨m, g', hm, hupdate, put_within hnew hname⟩
  · rintro ⟨m, g', hm, hupdate, rfl⟩
    obtain ⟨f, d', -, -, heq⟩ := Group.updateField_eq_ok.1 hupdate
    have hname : g'.name = g.name := by rw [heq]
    exact ⟨m, g.name, g, g', hm, rfl, hgroup, hupdate, (put_within hnew hname).symm⟩

/-- A field of the current group is selected. -/
theorem useField_within (hnew : ∀ entry ∈ earlier, entry.1 ≠ g.name) {env : Environment} :
    (Environment.within earlier g selected).useField m = .ok env ↔
      some m ∈ g.fields.map Field.name ∧ env = Environment.within earlier g (some m) := by
  have hgroup := group?_within hnew none (some g.name) selected
  rw [Environment.useField_eq_ok, ← Group.find?_isSome]
  constructor
  · rintro ⟨key, g₁, f, hkey, hg₁, hfind, rfl⟩
    cases hkey
    cases hgroup.symm.trans hg₁
    exact ⟨⟨f, hfind⟩, rfl⟩
  · rintro ⟨⟨f, hfind⟩, rfl⟩
    exact ⟨g.name, g, f, rfl, hgroup, hfind, rfl⟩

/-- A declaration is taken among fields, if it has a definition and a new name. -/
theorem takes_declaration (hnew : ∀ entry ∈ earlier, entry.1 ≠ g.name) :
    Takes (within earlier g stage selected) d.statement e ↔
      (stage = .definingFields ∨ stage = .definingFieldAttributes) ∧
        ∃ start g', d.content.definition = .ok start ∧ g.addField ⟨start, d.name⟩ = .ok g' ∧
          e = within earlier g' .definingFields none := by
  obtain ⟨content, name⟩ := d
  constructor
  · intro h
    cases content with
    | random kind =>
      cases h with
      | variableField hstage hd henv =>
        obtain ⟨g', hadd, rfl⟩ := (createField_within hnew).1 henv
        exact ⟨hstage, _, g', hd, hadd, rfl⟩
    | constant l =>
      cases h with
      | constantField hstage hd henv =>
        obtain ⟨g', hadd, rfl⟩ := (createField_within hnew).1 henv
        exact ⟨hstage, _, g', hd, hadd, rfl⟩
  · rintro ⟨hstage, start, g', hd, hadd, rfl⟩
    have henv : (Environment.within earlier g selected).createField start name = .ok _ :=
      (createField_within hnew).2 ⟨g', hadd, rfl⟩
    cases content with
    | random kind => exact .variableField hstage hd henv
    | constant l => exact .constantField hstage hd henv

/-- A selection is taken among fields or in a section, if the field is there. -/
theorem takes_select (hnew : ∀ entry ∈ earlier, entry.1 ≠ g.name) :
    Takes (within earlier g stage selected) (.selectField m) e ↔
      some m ∈ g.fields.map Field.name ∧
        ((stage = .definingFields ∧ e = within earlier g .definingFieldAttributes (some m)) ∨
          (stage = .updatingFieldAttributes ∧
            e = within earlier g .updatingFieldAttributes (some m))) := by
  constructor
  · intro h
    cases h with
    | selectField henv =>
      obtain ⟨hm, rfl⟩ := (useField_within hnew).1 henv
      exact ⟨hm, .inl ⟨rfl, rfl⟩⟩
    | selectInSection henv =>
      obtain ⟨hm, rfl⟩ := (useField_within hnew).1 henv
      exact ⟨hm, .inr ⟨rfl, rfl⟩⟩
  · rintro ⟨hm, ⟨rfl, rfl⟩ | ⟨rfl, rfl⟩⟩
    · exact .selectField ((useField_within hnew).2 ⟨hm, rfl⟩)
    · exact .selectInSection ((useField_within hnew).2 ⟨hm, rfl⟩)

/-- A clause is taken after a selection, if the selected field takes it. -/
theorem takes_clause (hnew : ∀ entry ∈ earlier, entry.1 ≠ g.name) :
    Takes (within earlier g stage selected) c.statement e ↔
      (stage = .definingFieldAttributes ∨ stage = .updatingFieldAttributes) ∧
        ∃ m g', selected = some m ∧ g.updateField m c.attr c.argument = .ok g' ∧
          e = within earlier g' stage selected := by
  constructor
  · intro h
    cases h with
    | updateField hstage henv =>
      obtain ⟨m, g', hm, hupdate, rfl⟩ := (updateField_within hnew).1 henv
      exact ⟨hstage, m, g', hm, hupdate, rfl⟩
  · rintro ⟨hstage, m, g', hm, hupdate, rfl⟩
    exact .updateField hstage ((updateField_within hnew).2 ⟨m, g', hm, hupdate, rfl⟩)

/-- A section begins among fields. -/
theorem takes_section : Takes (within earlier g stage selected) .startFieldsSection e ↔
    stage = .definingFields ∧ e = within earlier g .updatingFieldAttributes selected := by
  constructor
  · intro h
    cases h with
    | startFieldsSection => exact ⟨rfl, rfl⟩
  · rintro ⟨rfl, rfl⟩
    exact .startFieldsSection

end Within

/-! ## Groups -/

namespace GroupOutline

variable {earlier : List (Text × Group)} {t t' : GroupOutline} {s : Statement}

/-- The stage after a group. -/
def stage (t : GroupOutline) : Stage :=
  match t.fieldsSection with
  | some _ => .updatingFieldAttributes
  | none =>
    match t.body.getLast?.bind BodyItem.selection? with
    | some _ => .definingFieldAttributes
    | none => .definingFields

/-- The field that is selected after a group. -/
def selected (t : GroupOutline) : Option Text :=
  match t.fieldsSection with
  | some selections => selections.getLast?.map Selection.name
  | none => (t.body.getLast?.bind BodyItem.selection?).map Selection.name

/-- The statements of the group are taken from its beginning on exactly when the outline is well
formed and stands for a group, and then the evaluator is within this group. -/
def Evaluated (earlier : List (Text × Group)) (t : GroupOutline) : Prop :=
  ∀ e, (within earlier { name := t.name } .definingFields none).run t.contents = .ok e ↔
    t.WellFormed ∧ ∃ g, t.Means g ∧ e = within earlier g t.stage t.selected

/-- A group that is under way is at a stage within groups. -/
theorem inGroup_stage (t : GroupOutline) : t.stage.InGroup := by
  unfold stage Stage.InGroup
  split
  · simp
  · split <;> simp

/-- No selection stands at the end of a body where the stage is that of fields. -/
theorem last_of_stage (h : stage ⟨n, body, none⟩ = .definingFields) :
    ∀ item ∈ body.getLast?, item.selection? = none := by
  intro item hitem
  cases hs : item.selection? with
  | none => rfl
  | some s =>
    rw [Option.mem_def] at hitem
    simp [stage, hitem, hs] at h

/-- Behind a declaration nothing is selected. -/
theorem stage_of_last (h : ∀ item ∈ body.getLast?, item.selection? = none) :
    stage ⟨n, body, none⟩ = .definingFields ∧ selected ⟨n, body, none⟩ = none := by
  have hnone : body.getLast?.bind BodyItem.selection? = none := by
    cases hlast : body.getLast? with
    | none => rfl
    | some item => exact h item hlast
  simp [stage, selected, hnone]

/-- Before the section there are two stages. -/
theorem stage_body (n : Text) (body : List BodyItem) :
    stage ⟨n, body, none⟩ = .definingFields ∨
      stage ⟨n, body, none⟩ = .definingFieldAttributes := by
  unfold stage
  dsimp only
  split <;> simp

/-- An outline with one statement more is evaluated by one step more. -/
theorem Evaluated.step (ht : t.Evaluated earlier) (hname : t'.name = t.name)
    (hcontents : t'.contents = t.contents ++ [s])
    (hstep : ∀ e, (t.WellFormed ∧
        ∃ g, t.Means g ∧ Takes (within earlier g t.stage t.selected) s e) ↔
      t'.WellFormed ∧ ∃ g', t'.Means g' ∧ e = within earlier g' t'.stage t'.selected) :
    t'.Evaluated earlier := by
  intro e
  rw [hname, hcontents, run_concat, ← hstep]
  constructor
  · rintro ⟨mid, hmid, htakes⟩
    obtain ⟨hwf, g, hg, rfl⟩ := (ht mid).1 hmid
    exact ⟨hwf, g, hg, htakes⟩
  · rintro ⟨hwf, g, hg, htakes⟩
    exact ⟨_, (ht _).2 ⟨hwf, g, hg, rfl⟩, htakes⟩

/-- A group that is begun is evaluated. -/
theorem evaluated_nil (earlier : List (Text × Group)) (n : Text) :
    Evaluated earlier ⟨n, [], none⟩ := by
  have hmeans : ∀ g, Means ⟨n, [], none⟩ g ↔ g = { name := n } := by
    intro g
    constructor
    · rintro ⟨hname, hfields⟩
      have hnil := List.forall₂_nil_left_iff.1 hfields
      cases g
      cases hname
      cases hnil
      rfl
    · rintro rfl
      exact ⟨rfl, .nil⟩
  have hwf : WellFormed ⟨n, [], none⟩ :=
    ⟨List.isChain_nil, by simp, by simp [aliases], by simp, by simp⟩
  intro e
  simp only [hmeans, hwf, true_and, exists_eq_left]
  exact ⟨fun h => (Except.ok.inj h).symm, fun h => congrArg Except.ok h.symm⟩

/-- So is one with a declaration more. -/
theorem Evaluated.declare (hnew : ∀ entry ∈ earlier, entry.1 ≠ n)
    (ht : Evaluated earlier ⟨n, body, none⟩) :
    Evaluated earlier ⟨n, body ++ [.declaration d], none⟩ := by
  refine ht.step (s := d.statement) rfl (by simp [contents, BodyItem.statements]) fun e => ?_
  have hstage : stage ⟨n, body ++ [.declaration d], none⟩ = .definingFields ∧
      selected ⟨n, body ++ [.declaration d], none⟩ = none :=
    stage_of_last (by simp [BodyItem.selection?])
  rw [hstage.1, hstage.2, wellFormed_declare]
  constructor
  · rintro ⟨hwf, g, hg, htakes⟩
    obtain ⟨-, start, g', hd, hadd, rfl⟩ := (takes_declaration (hg.name ▸ hnew)).1 htakes
    have hfresh : ∀ a ∈ d.name, a ∉ aliases body := fun a ha hin =>
      (Group.addField_eq_ok.1 hadd).1 a ha (hg.mem_names.2 hin)
    exact ⟨⟨hwf, hfresh⟩, g', (means_declare hfresh hwf).2 ⟨g, hg, start, hd, hadd⟩, rfl⟩
  · rintro ⟨⟨hwf, hfresh⟩, g', hg', rfl⟩
    obtain ⟨g, hg, start, hd, hadd⟩ := (means_declare hfresh hwf).1 hg'
    exact ⟨hwf, g, hg, (takes_declaration (hg.name ▸ hnew)).2
      ⟨stage_body n body, start, g', hd, hadd, rfl⟩⟩

/-- One clause more in the last selection is one step more. -/
theorem Evaluated.clause (before : List Selection) (m : Text) (cs : List Clause) (c : Clause)
    (hnew : ∀ entry ∈ earlier, entry.1 ≠ t.name) (ht : t.Evaluated earlier)
    (hname : t'.name = t.name) (hcontents : t'.contents = t.contents ++ [c.statement])
    (hd : t'.declarations = t.declarations) (hs : t.selections = before ++ [⟨m, cs⟩])
    (hs' : t'.selections = before ++ [⟨m, cs ++ [c]⟩]) (hwf : t'.WellFormed ↔ t.WellFormed)
    (hm : t.WellFormed → m ∈ aliases t.body)
    (hstage : t.stage = .definingFieldAttributes ∨ t.stage = .updatingFieldAttributes)
    (hselected : t.selected = some m) (hstage' : t'.stage = t.stage)
    (hselected' : t'.selected = t.selected) : t'.Evaluated earlier := by
  refine ht.step hname hcontents fun e => ?_
  rw [hstage', hselected', hselected, hwf]
  constructor
  · rintro ⟨h, g, hg, htakes⟩
    obtain ⟨-, m', g', hm', hupdate, rfl⟩ := (takes_clause (hg.name ▸ hnew)).1 htakes
    cases hm'
    exact ⟨h, g', (means_clause hname hd hs hs' h.nodup (hm h)).2 ⟨g, hg, hupdate⟩, rfl⟩
  · rintro ⟨h, g', hg', rfl⟩
    obtain ⟨g, hg, hupdate⟩ := (means_clause hname hd hs hs' h.nodup (hm h)).1 hg'
    exact ⟨h, g, hg, (takes_clause (hg.name ▸ hnew)).2 ⟨hstage, m, g', rfl, hupdate, rfl⟩⟩

/-- So is one with a selection more. -/
theorem Evaluated.select (hnew : ∀ entry ∈ earlier, entry.1 ≠ n)
    (ht : Evaluated earlier ⟨n, body, none⟩) (m : Text) (cs : List Clause) :
    Evaluated earlier ⟨n, body ++ [.selection ⟨m, cs⟩], none⟩ := by
  induction cs using List.reverseRecOn with
  | nil =>
    refine ht.step (s := .selectField m) rfl
      (by simp [contents, BodyItem.statements, Selection.statements]) fun e => ?_
    have hmeans : ∀ g, Means ⟨n, body ++ [.selection ⟨m, []⟩], none⟩ g ↔
        Means ⟨n, body, none⟩ g := fun g =>
      means_select (m := m) rfl (by simp [declarations, BodyItem.declaration?])
        (by simp [selections, BodyItem.selection?])
    have hstage : stage ⟨n, body ++ [.selection ⟨m, []⟩], none⟩ = .definingFieldAttributes := by
      simp [stage, BodyItem.selection?]
    have hselected : selected ⟨n, body ++ [.selection ⟨m, []⟩], none⟩ = some m := by
      simp [selected, BodyItem.selection?]
    rw [wellFormed_select, hstage, hselected]
    constructor
    · rintro ⟨hwf, g, hg, htakes⟩
      obtain ⟨hm, ⟨hfields, rfl⟩ | ⟨hsection, rfl⟩⟩ := (takes_select (hg.name ▸ hnew)).1 htakes
      · exact ⟨⟨hwf, last_of_stage hfields, hg.mem_names.1 hm⟩, g, (hmeans g).2 hg, rfl⟩
      · rcases stage_body n body with h | h <;> rw [h] at hsection <;> cases hsection
    · rintro ⟨⟨hwf, hlast, hm⟩, g, hg, rfl⟩
      replace hg := (hmeans g).1 hg
      refine ⟨hwf, g, hg, (takes_select (hg.name ▸ hnew)).2 ⟨hg.mem_names.2 hm, .inl ⟨?_, rfl⟩⟩⟩
      exact (stage_of_last hlast).1
  | append_singleton cs c ih =>
    refine ih.clause (body.filterMap BodyItem.selection?) m cs c hnew rfl
      ?_ ?_ ?_ ?_ ?_ ?_ ?_ ?_ ?_ ?_
    · simp [contents, BodyItem.statements, Selection.statements]
    · rw [declarations, declarations, List.filterMap_append, List.filterMap_append]
      rfl
    · simp [selections, BodyItem.selection?]
    · simp [selections, BodyItem.selection?]
    · rw [wellFormed_select, wellFormed_select]
    · intro h
      have hm := (wellFormed_select.1 h).2.2
      simpa [aliases, BodyItem.declaration?] using hm
    · simp [stage, BodyItem.selection?]
    · simp [selected, BodyItem.selection?]
    · simp [stage, BodyItem.selection?]
    · simp [selected, BodyItem.selection?]

/-- A group without a section is evaluated. -/
theorem evaluated_body (hnew : ∀ entry ∈ earlier, entry.1 ≠ n) (body : List BodyItem) :
    Evaluated earlier ⟨n, body, none⟩ := by
  induction body using List.reverseRecOn with
  | nil => exact evaluated_nil earlier n
  | append_singleton body item ih =>
    cases item with
    | declaration d => exact ih.declare hnew
    | selection s => exact ih.select hnew s.name s.clauses

/-- So is one with an empty section. -/
theorem Evaluated.startSection (ht : Evaluated earlier ⟨n, body, none⟩) :
    Evaluated earlier ⟨n, body, some []⟩ := by
  refine ht.step (s := .startFieldsSection) rfl (by simp [contents]) fun e => ?_
  have hmeans : ∀ g, Means ⟨n, body, some []⟩ g ↔ Means ⟨n, body, none⟩ g := fun g =>
    ⟨fun h => ⟨h.name, h.fields⟩, fun h => ⟨h.name, h.fields⟩⟩
  rw [wellFormed_section]
  constructor
  · rintro ⟨hwf, g, hg, htakes⟩
    obtain ⟨hstage, rfl⟩ := takes_section.1 htakes
    have hlast := last_of_stage hstage
    rw [(stage_of_last hlast).2]
    exact ⟨⟨hwf, hlast⟩, g, (hmeans g).2 hg, rfl⟩
  · rintro ⟨⟨hwf, hlast⟩, g, hg, rfl⟩
    rw [(stage_of_last hlast).1, (stage_of_last hlast).2]
    exact ⟨hwf, g, (hmeans g).1 hg, takes_section.2 ⟨rfl, rfl⟩⟩

/-- So is one with a selection more in its section. -/
theorem Evaluated.sectionSelect {selections : List Selection}
    (hnew : ∀ entry ∈ earlier, entry.1 ≠ n) (ht : Evaluated earlier ⟨n, body, some selections⟩)
    (m : Text) (cs : List Clause) :
    Evaluated earlier ⟨n, body, some (selections ++ [⟨m, cs⟩])⟩ := by
  induction cs using List.reverseRecOn with
  | nil =>
    refine ht.step (s := .selectField m) rfl (by simp [contents, Selection.statements])
      fun e => ?_
    have hmeans : ∀ g, Means ⟨n, body, some (selections ++ [⟨m, []⟩])⟩ g ↔
        Means ⟨n, body, some selections⟩ g := fun g =>
      means_select (m := m) rfl rfl (by simp [GroupOutline.selections])
    have hselected : selected ⟨n, body, some (selections ++ [⟨m, []⟩])⟩ = some m := by
      simp [selected]
    rw [wellFormed_sectionSelect, hselected]
    constructor
    · rintro ⟨hwf, g, hg, htakes⟩
      obtain ⟨hm, ⟨hfields, rfl⟩ | ⟨hsection, rfl⟩⟩ := (takes_select (hg.name ▸ hnew)).1 htakes
      · cases hfields
      · exact ⟨⟨hwf, hg.mem_names.1 hm⟩, g, (hmeans g).2 hg, rfl⟩
    · rintro ⟨⟨hwf, hm⟩, g, hg, rfl⟩
      replace hg := (hmeans g).1 hg
      exact ⟨hwf, g, hg, (takes_select (hg.name ▸ hnew)).2
        ⟨hg.mem_names.2 hm, .inr ⟨rfl, rfl⟩⟩⟩
  | append_singleton cs c ih =>
    refine ih.clause (body.filterMap BodyItem.selection? ++ selections) m cs c hnew rfl
      ?_ rfl ?_ ?_ ?_ ?_ (.inr rfl) ?_ rfl ?_
    · simp [contents, Selection.statements]
    · simp [GroupOutline.selections]
    · simp [GroupOutline.selections]
    · rw [wellFormed_sectionSelect, wellFormed_sectionSelect]
    · exact fun h => (wellFormed_sectionSelect.1 h).2
    · simp [selected]
    · simp [selected]

/-- Every group is evaluated after groups of other names. -/
theorem evaluated (t : GroupOutline) (hnew : ∀ entry ∈ earlier, entry.1 ≠ t.name) :
    t.Evaluated earlier := by
  obtain ⟨n, body, fieldsSection⟩ := t
  cases fieldsSection with
  | none => exact evaluated_body hnew body
  | some selections =>
    induction selections using List.reverseRecOn with
    | nil => exact (evaluated_body hnew body).startSection
    | append_singleton selections s ih => exact (ih hnew).sectionSelect hnew s.name s.clauses

end GroupOutline

end ByteLayout
