import ByteLayout.Proofs.Acceptance
import ByteLayout.Proofs.Soundness
import Mathlib.Data.List.ModifyLast

/-!
# Consistent evaluators

What every evaluator keeps to, whatever statements it is given and however many of them it refuses.
`declared` is what accepted statements declare: groups in order, and the fields of each.
`Consistent` relates it to the stage, the groups, the generator and what is current.

`Standing` lists the evaluators that can come about, stage by stage. Every statement that is taken
leads from one of them to another (`Standing.step`), and each is consistent. Hence
`consistent_after`: an evaluator is consistent after any list of statements.
-/

namespace ByteLayout

/-! ## What is declared -/

/-- A group that is declared: its name and its fields in order. -/
abbrev DeclaredGroup := Text × List Declaration

/-- What is declared after one statement more. -/
def declare (ds : List DeclaredGroup) : Statement → List DeclaredGroup
  | .startGroup name => ds ++ [(name, [])]
  | .variableField kind name => ds.modifyLast fun d => (d.1, d.2 ++ [⟨.random kind, name⟩])
  | .constantField l name => ds.modifyLast fun d => (d.1, d.2 ++ [⟨.constant l, name⟩])
  | _ => ds

/-- The groups that some statements declare, in order. -/
def declared (ss : List Statement) : List DeclaredGroup :=
  ss.foldl declare []

/-- What the bounds of a content keep to: inside the format if it is random, and else in order. -/
def Content.Bounds : Content → FieldDefinition → Prop
  | .random _, d => d.Sound
  | .constant _, d => d.Ordered

/-- The field is that of the declaration. -/
structure Declaration.Yields (d : Declaration) (f : Field) : Prop where
  /-- It has the declared name. -/
  name : f.name = d.name
  /-- It holds the declared content, with some clauses set. -/
  definition : ∃ start cs, d.content.definition = .ok start ∧ start.setAll cs = .ok f.definition
  /-- Its bounds keep to what they have to. -/
  bounds : d.content.Bounds f.definition

/-- The entry of a group is that of the declared one. -/
structure DeclaredGroup.Yields (d : DeclaredGroup) (entry : Text × Group) : Prop where
  /-- The group stands under the declared name. -/
  key : entry.1 = d.1
  /-- The group has the declared name. -/
  name : entry.2.name = d.1
  /-- No two fields have the same name. -/
  nodup : (entry.2.fields.filterMap Field.name).Nodup
  /-- The fields are those that are declared. -/
  fields : List.Forall₂ Declaration.Yields d.2 entry.2.fields

/-- The field that attributes go to is there where it has to be, and nowhere else. -/
structure Stage.Selects (stage : Stage) (selected : Option Text) (g : Group) : Prop where
  /-- The selected field is one of the group. -/
  mem : ∀ m ∈ selected, some m ∈ g.fields.map Field.name
  /-- No field is selected among the fields of a group. -/
  unselected : stage = .definingFields → selected = none
  /-- A field is selected where its attributes are set. -/
  isSome : stage = .definingFieldAttributes → selected.isSome

namespace Evaluator

/-- The stage, the groups, the generator and what is current go together, and with what has been
declared. -/
structure Consistent (ds : List DeclaredGroup) (e : Evaluator) : Prop where
  /-- No two groups have the same key. -/
  nodup : (e.env.groups.map Prod.fst).Nodup
  /-- The groups are those that are declared, under their names. -/
  groups : List.Forall₂ DeclaredGroup.Yields ds e.env.groups
  /-- There is no group before the first statement, and only then. -/
  started : e.stage = .started ↔ e.env.groups = []
  /-- There is a generator from its beginning on. -/
  generator : e.env.generator.isSome ↔ e.stage = .definingGenerator ∨ e.stage = .finished
  /-- The bounds of the generator are not negative. -/
  generatorBounds : ∀ g ∈ e.env.generator, g.Sound
  /-- Between the first statement and the last one the current group is the last one declared, and
  the field that attributes go to is one of it. -/
  currentGroup : e.stage ≠ .started → e.stage ≠ .finished →
    ∃ d g, ds.getLast? = some d ∧ e.env.currentGroup = some d.1 ∧ e.env.group? d.1 = some g ∧
      e.stage.Selects e.env.currentField g
  /-- Nothing is current before the first statement and after the last one. -/
  cleared : e.stage = .started ∨ e.stage = .finished →
    e.env.currentGroup = none ∧ e.env.currentField = none

end Evaluator

/-! ## Fields -/

section Fields

variable {ds : List Declaration} {d : Declaration} {fs : List Field} {f : Field}
  {start d' : FieldDefinition} {m attr : Text} {argument : Expr}

/-- Content begins with its own bounds. -/
theorem Content.bounds_definition {content : Content} (h : content.definition = .ok start) :
    content.Bounds start := by
  cases content with
  | random kind => exact FieldDefinition.sound_ofTypeName h
  | constant l => exact FieldDefinition.ordered_ofLiteral h

/-- An attribute keeps to the bounds that content allows. -/
theorem Content.Bounds.update {content : Content} {d : FieldDefinition} (h : content.Bounds d)
    (hupdate : d.update attr argument = .ok d') : content.Bounds d' := by
  cases content with
  | random kind => exact FieldDefinition.sound_update h hupdate
  | constant l => exact FieldDefinition.ordered_update h hupdate

/-- Bounds that content allows are in order. -/
theorem Content.Bounds.ordered {content : Content} {d : FieldDefinition} (h : content.Bounds d) :
    d.Ordered := by
  cases content with
  | random kind => exact FieldDefinition.Sound.ordered h
  | constant l => exact h

/-- A declaration yields the field that is first made of it. -/
theorem Declaration.yields_start (h : d.content.definition = .ok start) :
    d.Yields ⟨start, d.name⟩ :=
  ⟨rfl, ⟨start, [], h, rfl⟩, d.content.bounds_definition h⟩

/-- A declaration still yields its field after an attribute. -/
theorem Declaration.Yields.update (h : d.Yields f)
    (hupdate : f.definition.update attr argument = .ok d') :
    d.Yields { f with definition := d' } := by
  obtain ⟨start, cs, hstart, hall⟩ := h.definition
  have hall' : start.setAll (cs ++ [⟨attr, argument⟩]) = .ok d' :=
    FieldDefinition.setAll_concat.2 ⟨f.definition, hall, hupdate⟩
  exact ⟨h.name, ⟨start, _, hstart, hall'⟩, h.bounds.update hupdate⟩

/-- A new definition leaves all names as they are. -/
theorem Group.names_setDefinition (m : Text) (d' : FieldDefinition) (fs : List Field) :
    (setDefinition m d' fs).map Field.name = fs.map Field.name := by
  induction fs with
  | nil => rfl
  | cons f fs ih =>
    unfold setDefinition
    split
    · rfl
    · rw [List.map_cons, List.map_cons, ih]

theorem filterMap_names (fs : List Field) :
    fs.filterMap Field.name = (fs.map Field.name).filterMap id := by
  rw [List.filterMap_map]
  rfl

/-- The first field of a name stays that of its declaration when an attribute is set. -/
theorem yields_setDefinition (h : List.Forall₂ Declaration.Yields ds fs)
    (hfind : fs.find? (fun f => f.name = some m) = some f)
    (hupdate : f.definition.update attr argument = .ok d') :
    List.Forall₂ Declaration.Yields ds (Group.setDefinition m d' fs) := by
  induction h with
  | nil => cases hfind
  | @cons d f' ds fs hd hds ih =>
    unfold Group.setDefinition
    split
    · next hname =>
      rw [List.find?_cons_of_pos (by simpa using hname)] at hfind
      cases hfind
      exact .cons (hd.update hupdate) hds
    · next hname =>
      rw [List.find?_cons_of_neg (by simpa using hname)] at hfind
      exact .cons hd (ih hfind)

end Fields

/-! ## Groups -/

section Groups

variable {d : DeclaredGroup} {ds : List DeclaredGroup} {g g' : Group} {start : FieldDefinition}
  {name : Option Text} {m attr : Text} {argument : Expr} {stage : Stage}
  {selected : Option Text}

/-- A group that is begun has no fields. -/
theorem DeclaredGroup.yields_start (n : Text) :
    DeclaredGroup.Yields (n, []) (n, { name := n }) :=
  ⟨rfl, rfl, List.nodup_nil, .nil⟩

/-- A field is added under a name of its own. -/
theorem Group.nodup_addField {f : Field} (h : (g.fields.filterMap Field.name).Nodup)
    (hadd : g.addField f = .ok g') : (g'.fields.filterMap Field.name).Nodup := by
  obtain ⟨hfresh, rfl⟩ := Group.addField_eq_ok.1 hadd
  rw [List.filterMap_append, List.nodup_append]
  refine ⟨h, ?_, ?_⟩
  · cases hname : f.name <;> simp [hname]
  · intro a ha b hb heq
    obtain ⟨f', hf', hname'⟩ := List.mem_filterMap.1 ha
    obtain ⟨f'', hf'', hname''⟩ := List.mem_filterMap.1 hb
    obtain rfl := List.mem_singleton.1 hf''
    refine hfresh b hname'' ?_
    rw [← heq, ← hname']
    exact List.mem_map_of_mem hf'

/-- Names stay as they are when an attribute is set. -/
theorem Group.nodup_updateField (h : (g.fields.filterMap Field.name).Nodup)
    (hupdate : g.updateField m attr argument = .ok g') :
    (g'.fields.filterMap Field.name).Nodup := by
  obtain ⟨f, d', -, -, rfl⟩ := Group.updateField_eq_ok.1 hupdate
  rw [filterMap_names, Group.names_setDefinition, ← filterMap_names]
  exact h

/-- A group with one field more is yielded by one declaration more. -/
theorem DeclaredGroup.Yields.declare {content : Content} (h : Yields d (g.name, g))
    (hstart : content.definition = .ok start) (hadd : g.addField ⟨start, name⟩ = .ok g') :
    Yields (d.1, d.2 ++ [⟨content, name⟩]) (g'.name, g') := by
  have hnodup := Group.nodup_addField h.nodup hadd
  obtain ⟨-, rfl⟩ := Group.addField_eq_ok.1 hadd
  have hyields : Declaration.Yields ⟨content, name⟩ ⟨start, name⟩ :=
    Declaration.yields_start hstart
  exact ⟨h.key, h.name, hnodup, List.rel_append h.fields (.cons hyields .nil)⟩

/-- A group is still yielded by its declarations after an attribute. -/
theorem DeclaredGroup.Yields.update (h : Yields d (g.name, g))
    (hupdate : g.updateField m attr argument = .ok g') : Yields d (g'.name, g') := by
  have hnodup := Group.nodup_updateField h.nodup hupdate
  obtain ⟨f, d', hfind, hd', rfl⟩ := Group.updateField_eq_ok.1 hupdate
  exact ⟨h.key, h.name, hnodup, yields_setDefinition h.fields hfind hd'⟩

/-- Among fields nothing is selected. -/
theorem Stage.Selects.none (g : Group) : Stage.definingFields.Selects none g :=
  ⟨nofun, fun _ => rfl, nofun⟩

/-- A selection stands after an attribute. -/
theorem Stage.Selects.update (h : stage.Selects selected g)
    (hupdate : g.updateField m attr argument = .ok g') : stage.Selects selected g' := by
  obtain ⟨f, d', -, -, rfl⟩ := Group.updateField_eq_ok.1 hupdate
  refine ⟨?_, h.unselected, h.isSome⟩
  rw [Group.names_setDefinition]
  exact h.mem

end Groups

/-! ## Rows of groups -/

/-- The groups that are declared stand in a row, with that of the last declared one at the end. -/
structure Row (ds : List DeclaredGroup) (d : DeclaredGroup) (earlier : List (Text × Group))
    (g : Group) : Prop where
  /-- No two earlier groups have the same key. -/
  nodup : (earlier.map Prod.fst).Nodup
  /-- No earlier group has the name of the last one. -/
  new : ∀ entry ∈ earlier, entry.1 ≠ g.name
  /-- The earlier groups are those that are declared. -/
  earlier : List.Forall₂ DeclaredGroup.Yields ds earlier
  /-- The last group is that of the last declared one. -/
  last : d.Yields (g.name, g)

namespace Row

variable {d : DeclaredGroup} {ds : List DeclaredGroup} {earlier : List (Text × Group)}
  {g g' : Group} {start : FieldDefinition} {n m attr : Text} {name : Option Text}
  {argument : Expr}

/-- The first group is a row of its own. -/
theorem first (n : Text) : Row [] (n, []) [] { name := n } :=
  ⟨List.nodup_nil, by simp, .nil, DeclaredGroup.yields_start n⟩

/-- The groups of a row are yielded by the declared ones, the current one last. -/
theorem groups (h : Row ds d earlier g) :
    List.Forall₂ DeclaredGroup.Yields (ds ++ [d]) (earlier ++ [(g.name, g)]) :=
  List.rel_append h.earlier (.cons h.last .nil)

/-- No two groups of a row have the same key. -/
theorem keys_nodup (h : Row ds d earlier g) :
    ((earlier ++ [(g.name, g)]).map Prod.fst).Nodup := by
  have hnew : g.name ∉ earlier.map Prod.fst := by
    intro hmem
    obtain ⟨entry, hentry, hname⟩ := List.mem_map.1 hmem
    exact h.new entry hentry hname
  rw [List.map_append, List.map_singleton, ← List.concat_eq_append]
  exact h.nodup.concat hnew

/-- A group of a new name goes on with the row. -/
theorem next (h : Row ds d earlier g) (hnew : ∀ entry ∈ earlier ++ [(g.name, g)], entry.1 ≠ n) :
    Row (ds ++ [d]) (n, []) (earlier ++ [(g.name, g)]) { name := n } :=
  ⟨h.keys_nodup, hnew, h.groups, DeclaredGroup.yields_start n⟩

/-- A field goes to the last group of the row. -/
theorem declare {content : Content} (h : Row ds d earlier g)
    (hstart : content.definition = .ok start) (hadd : g.addField ⟨start, name⟩ = .ok g') :
    Row ds (d.1, d.2 ++ [⟨content, name⟩]) earlier g' := by
  have hname : g'.name = g.name := by rw [(Group.addField_eq_ok.1 hadd).2]
  exact ⟨h.nodup, by rw [hname]; exact h.new, h.earlier, h.last.declare hstart hadd⟩

/-- An attribute goes to the last group of the row. -/
theorem update (h : Row ds d earlier g) (hupdate : g.updateField m attr argument = .ok g') :
    Row ds d earlier g' := by
  have hname : g'.name = g.name := by
    obtain ⟨f, d', -, -, rfl⟩ := Group.updateField_eq_ok.1 hupdate
    rfl
  exact ⟨h.nodup, by rw [hname]; exact h.new, h.earlier, h.last.update hupdate⟩

end Row

/-! ## Evaluators -/

namespace Evaluator

/-- The evaluators that can come about, with what has been declared. -/
inductive Standing : List DeclaredGroup → Evaluator → Prop
  /-- Before the first statement. -/
  | started : Standing [] {}
  /-- Within a group. -/
  | inGroup {ds : List DeclaredGroup} {d : DeclaredGroup} {earlier : List (Text × Group)}
    {g : Group} {stage : Stage} {selected : Option Text} (hstage : stage.InGroup)
    (hrow : Row ds d earlier g) (hselects : stage.Selects selected g) :
    Standing (ds ++ [d]) (within earlier g stage selected)
  /-- Among the parameters of the generator. The last group and its field stay current. -/
  | inGenerator {ds : List DeclaredGroup} {d : DeclaredGroup} {earlier : List (Text × Group)}
    {g : Group} {selected : Option Text} {generator : Generator} (hrow : Row ds d earlier g)
    (hselects : ∀ m ∈ selected, some m ∈ g.fields.map Field.name)
    (hgenerator : generator.Sound) :
    Standing (ds ++ [d]) ⟨.definingGenerator,
      ⟨earlier ++ [(g.name, g)], some generator, some g.name, selected⟩⟩
  /-- After the last statement. -/
  | finished {ds : List DeclaredGroup} {d : DeclaredGroup} {earlier : List (Text × Group)}
    {g : Group} {generator : Generator} (hrow : Row ds d earlier g)
    (hgenerator : generator.Sound) :
    Standing (ds ++ [d]) ⟨.finished, ⟨earlier ++ [(g.name, g)], some generator, none, none⟩⟩

variable {ds : List DeclaredGroup} {e e' : Evaluator} {s : Statement}

/-- What is taken has a place at the stage. -/
theorem Takes.after_eq (h : Takes e s e') : e.stage.after s = .ok e'.stage := by
  cases h with
  | startGroup hstage => rcases hstage with rfl | rfl | rfl | rfl <;> rfl
  | variableField hstage | constantField hstage | updateField hstage =>
    rcases hstage with rfl | rfl <;> rfl
  | selectField | selectInSection | startFieldsSection | setParameter | run => rfl
  | startGenerator hstage => rcases hstage with rfl | rfl | rfl <;> rfl

/-- A statement that is taken within a group leads to the next field of it, to a field that is
selected or updated, to the next group, or to the generator. -/
theorem Standing.step_inGroup {d : DeclaredGroup} {earlier : List (Text × Group)} {g : Group}
    {stage : Stage} {selected : Option Text} (hstage : stage.InGroup) (hrow : Row ds d earlier g)
    (hselects : stage.Selects selected g) (h : Takes (within earlier g stage selected) s e') :
    Standing (declare (ds ++ [d]) s) e' := by
  have hnew := hrow.new
  cases s with
  | startGroup n =>
    obtain ⟨hnext, rfl⟩ := (takes_nextGroup hstage).1 h
    exact .inGroup (.inl rfl) (hrow.next hnext) (.none _)
  | variableField kind name =>
    obtain ⟨-, start, g', hstart, hadd, rfl⟩ :=
      (takes_declaration (d := ⟨.random kind, name⟩) hnew).1 h
    rw [declare, List.modifyLast_concat]
    exact .inGroup (.inl rfl) (hrow.declare hstart hadd) (.none _)
  | constantField l name =>
    obtain ⟨-, start, g', hstart, hadd, rfl⟩ :=
      (takes_declaration (d := ⟨.constant l, name⟩) hnew).1 h
    rw [declare, List.modifyLast_concat]
    exact .inGroup (.inl rfl) (hrow.declare hstart hadd) (.none _)
  | selectField m =>
    obtain ⟨hm, ⟨-, rfl⟩ | ⟨-, rfl⟩⟩ := (takes_select hnew).1 h
    · exact .inGroup (.inr (.inl rfl)) hrow ⟨by simpa using hm, nofun, fun _ => rfl⟩
    · exact .inGroup (.inr (.inr rfl)) hrow ⟨by simpa using hm, nofun, fun _ => rfl⟩
  | updateField attr argument =>
    obtain ⟨-, m, g', -, hupdate, rfl⟩ := (takes_clause (c := ⟨attr, argument⟩) hnew).1 h
    exact .inGroup hstage (hrow.update hupdate) (hselects.update hupdate)
  | startFieldsSection =>
    obtain ⟨-, rfl⟩ := takes_section.1 h
    exact .inGroup (.inr (.inr rfl)) hrow ⟨hselects.mem, nofun, nofun⟩
  | startGenerator n =>
    cases h with
    | startGenerator _ henv =>
      obtain ⟨-, rfl⟩ := Environment.createGenerator_eq_ok.1 henv
      exact .inGenerator hrow hselects.mem ⟨Int.le_refl 0, Int.natCast_nonneg 4096⟩
  | setParameter | run => rcases hstage with rfl | rfl | rfl <;> cases h.after_eq

/-- A statement that is taken leads from one evaluator that can come about to another. -/
theorem Standing.step (he : Standing ds e) (h : Takes e s e') : Standing (declare ds s) e' := by
  cases he with
  | started =>
    cases s with
    | startGroup n =>
      obtain rfl := takes_firstGroup.1 h
      exact .inGroup (.inl rfl) (Row.first n) (.none _)
    | _ => cases h.after_eq
  | inGroup hstage hrow hselects => exact step_inGroup hstage hrow hselects h
  | inGenerator hrow hselects hgenerator =>
    cases s with
    | setParameter name value =>
      cases h with
      | setParameter henv =>
        obtain ⟨g, g', hg, hupdate, rfl⟩ := Environment.setParameter_eq_ok.1 henv
        cases hg
        exact .inGenerator hrow hselects (Generator.sound_update hgenerator hupdate)
    | run =>
      cases h with
      | run => exact .finished hrow hgenerator
    | _ => cases h.after_eq
  | finished hrow hgenerator => cases h.after_eq

/-- Every run leads to an evaluator that can come about. -/
theorem standing_of_run {ss : List Statement} (h : run {} ss = .ok e) :
    Standing (declared ss) e := by
  -- What is declared grows with the last statement, so the induction is from the right.
  induction ss using List.reverseRecOn generalizing e with
  | nil =>
    cases h
    exact .started
  | append_singleton ss s ih =>
    obtain ⟨mid, hmid, htakes⟩ := run_concat.1 h
    rw [declared, List.foldl_append]
    exact (ih hmid).step htakes

/-- The last group of a row is found under the name that is declared last. -/
theorem exists_current {d : DeclaredGroup} {earlier : List (Text × Group)} {g : Group}
    {stage : Stage} {selected : Option Text} (generator : Option Generator)
    (hrow : Row ds d earlier g) (hselects : stage.Selects selected g) :
    ∃ d' g', (ds ++ [d]).getLast? = some d' ∧ some g.name = some d'.1 ∧
      (Environment.mk (earlier ++ [(g.name, g)]) generator (some g.name) selected).group? d'.1 =
        some g' ∧ stage.Selects selected g' := by
  refine ⟨d, g, List.getLast?_concat, congrArg some hrow.last.key, ?_, hselects⟩
  rw [← hrow.last.key]
  exact group?_within hrow.new generator (some g.name) selected

/-- What stands is consistent. -/
theorem Standing.consistent (h : Standing ds e) : Consistent ds e := by
  cases h with
  | started =>
    refine ⟨List.nodup_nil, .nil, by simp, by simp, by simp, ?_, fun _ => ⟨rfl, rfl⟩⟩
    intro hstage
    exact absurd rfl hstage
  | @inGroup ds d earlier g stage selected hstage hrow hselects =>
    have hne : stage ≠ .started ∧ stage ≠ .definingGenerator ∧ stage ≠ .finished := by
      rcases hstage with rfl | rfl | rfl <;> simp
    have hgroups : earlier ++ [(g.name, g)] ≠ [] := by simp
    refine ⟨hrow.keys_nodup, hrow.groups, iff_of_false hne.1 hgroups, ?_, nofun, ?_, ?_⟩
    · exact iff_of_false Bool.false_ne_true (by simp [within, hne])
    · intro _ _
      exact exists_current none hrow hselects
    · intro hstage
      rcases hstage with h | h
      · exact absurd h hne.1
      · exact absurd h hne.2.2
  | @inGenerator ds d earlier g selected generator hrow hmem hgenerator =>
    have hgroups : earlier ++ [(g.name, g)] ≠ [] := by simp
    refine ⟨hrow.keys_nodup, hrow.groups, iff_of_false nofun hgroups, by simp, ?_, ?_, by simp⟩
    · simpa using hgenerator
    · intro _ _
      exact exists_current (some generator) hrow ⟨hmem, nofun, nofun⟩
  | @finished ds d earlier g generator hrow hgenerator =>
    have hgroups : earlier ++ [(g.name, g)] ≠ [] := by simp
    refine ⟨hrow.keys_nodup, hrow.groups, iff_of_false nofun hgroups, by simp, ?_, ?_,
      fun _ => ⟨rfl, rfl⟩⟩
    · simpa using hgenerator
    · intro _ hstage
      exact absurd rfl hstage

/-- The bounds of all fields are in order. -/
theorem Consistent.ordered (h : Consistent ds e) :
    ∀ entry ∈ e.env.groups, ∀ f ∈ entry.2.fields, f.definition.Ordered := by
  intro entry hentry f hf
  obtain ⟨d, -, hyields⟩ := forall₂_of_mem_right h.groups hentry
  obtain ⟨declaration, -, hfield⟩ := forall₂_of_mem_right hyields.fields hf
  exact hfield.bounds.ordered

/-- After any statements, taken or refused, an evaluator is consistent with what the accepted ones
declare. -/
theorem consistent_after (ss : List Statement) :
    Consistent (declared (accepted {} ss)) (after {} ss) :=
  (standing_of_run (run_accepted {} ss)).consistent

end Evaluator

end ByteLayout
