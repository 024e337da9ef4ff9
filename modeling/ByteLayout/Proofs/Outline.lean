import ByteLayout.Evaluator
import ByteLayout.Program.Form
import ByteLayout.Proofs.Lists
import ByteLayout.Proofs.Results

/-!
# Outlines of programs

A program read as a whole and without a machine. An outline has groups and then a generator. A group
has a body of declarations and selections, and perhaps a section of selections; a selection names a
field and holds the clauses that go to it. The generator has parameters.

`Outline.WellFormed` says which outlines are programs, and `Outline.Means` what environment an
outline stands for: a field holds what its declaration makes of it, with the clauses of all
selections of it set in order, and the generator has its parameters set in order.
-/

namespace ByteLayout

/-! ## Groups -/

/-- What a field is declared to hold. -/
inductive Content where
  /-- Random content of a type. -/
  | random (kind : Text)
  /-- A constant. -/
  | constant (literal : Literal)

/-- The definition of a content, if it has one. -/
def Content.definition : Content → Except Problem FieldDefinition
  | random kind => FieldDefinition.ofTypeName kind
  | constant l => FieldDefinition.ofLiteral l

/-- A field as it is declared. -/
structure Declaration where
  /-- What the field holds. -/
  content : Content
  /-- The name of the field. -/
  name : Option Text

/-- The statement of a declaration. -/
def Declaration.statement (d : Declaration) : Statement :=
  match d.content with
  | .random kind => .variableField kind d.name
  | .constant l => .constantField l d.name

/-- A selection of a field and the clauses after it. -/
structure Selection where
  /-- The name of the field. -/
  name : Text
  /-- The clauses that go to the field. -/
  clauses : List Clause

/-- The statements of a selection. -/
def Selection.statements (s : Selection) : List Statement :=
  .selectField s.name :: s.clauses.map Clause.statement

/-- What the body of a group is made of. -/
inductive BodyItem where
  /-- A field. -/
  | declaration (d : Declaration)
  /-- A selection. -/
  | selection (s : Selection)

namespace BodyItem

/-- The statements of an item. -/
def statements : BodyItem → List Statement
  | declaration d => [d.statement]
  | selection s => s.statements

/-- The declaration that an item is. -/
def declaration? : BodyItem → Option Declaration
  | declaration d => some d
  | selection _ => none

/-- The selection that an item is. -/
def selection? : BodyItem → Option Selection
  | declaration _ => none
  | selection s => some s

end BodyItem

/-- The names of the fields that some items declare. -/
def aliases (items : List BodyItem) : List Text :=
  (items.filterMap BodyItem.declaration?).filterMap Declaration.name

/-- A group as it is written. -/
structure GroupOutline where
  /-- The name of the group. -/
  name : Text
  /-- The declarations, and selections among them. -/
  body : List BodyItem := []
  /-- The selections of the section of fields, if there is one. -/
  fieldsSection : Option (List Selection) := none

namespace GroupOutline

/-- The statements after the name of the group. -/
def contents (t : GroupOutline) : List Statement :=
  t.body.flatMap BodyItem.statements ++
    match t.fieldsSection with
    | none => []
    | some selections => .startFieldsSection :: selections.flatMap Selection.statements

/-- The statements of a group. -/
def statements (t : GroupOutline) : List Statement :=
  .startGroup t.name :: t.contents

/-- The fields of a group, in order. -/
def declarations (t : GroupOutline) : List Declaration :=
  t.body.filterMap BodyItem.declaration?

/-- The selections of a group, in order. -/
def selections (t : GroupOutline) : List Selection :=
  t.body.filterMap BodyItem.selection? ++ t.fieldsSection.getD []

/-- The group can stand in a program. -/
structure WellFormed (t : GroupOutline) : Prop where
  /-- No two selections of the body are neighbours. -/
  apart : t.body.IsChain fun a b => a.selection?.isNone ∨ b.selection?.isNone
  /-- No section comes right after a selection. -/
  sectionApart : t.fieldsSection.isSome → ∀ item ∈ t.body.getLast?, item.selection? = none
  /-- No two fields have the same name. -/
  nodup : (aliases t.body).Nodup
  /-- A field is declared before it is selected. -/
  declared : ∀ before s, before ++ [.selection s] <+: t.body → s.name ∈ aliases before
  /-- The fields that the section selects are declared. -/
  sectionDeclared : ∀ s ∈ t.fieldsSection.getD [], s.name ∈ aliases t.body

end GroupOutline

/-! ## What groups mean -/

/-- The clauses that some selections hold for a field of a name, in order. -/
def clausesOf (selections : List Selection) (name : Option Text) : List Clause :=
  (selections.filter fun s => some s.name = name).flatMap Selection.clauses

/-- Sets attributes one after the other. -/
def FieldDefinition.setAll (d : FieldDefinition) (cs : List Clause) :
    Except UpdateError FieldDefinition :=
  cs.foldlM (fun d c => d.update c.attr c.argument) d

/-- The field is that of the declaration, with the clauses of the selections of it. -/
structure FieldMeans (selections : List Selection) (d : Declaration) (f : Field) : Prop where
  /-- It has the declared name. -/
  name : f.name = d.name
  /-- The content has a definition, which takes all clauses. -/
  definition : ∃ start, d.content.definition = .ok start ∧
    start.setAll (clausesOf selections d.name) = .ok f.definition

/-- The group is that of the outline: it has its name and its fields in order. -/
structure GroupOutline.Means (t : GroupOutline) (g : Group) : Prop where
  /-- It has the name of the outline. -/
  name : g.name = t.name
  /-- Its fields are those that are declared. -/
  fields : List.Forall₂ (FieldMeans t.selections) t.declarations g.fields

/-! ## Programs -/

/-- Sets parameters one after the other. -/
def Generator.setAll (g : Generator) (ps : List (Text × Expr)) : Except UpdateError Generator :=
  ps.foldlM (fun g p => g.update p.1 p.2) g

/-- A generator as it is written. -/
structure GeneratorOutline where
  /-- The name of the group that is emitted. -/
  group : Text
  /-- The parameters and their values, in order. -/
  parameters : List (Text × Expr) := []

namespace GeneratorOutline

/-- The statements of a generator without the end of the program. -/
def statements (t : GeneratorOutline) : List Statement :=
  .startGenerator t.group :: t.parameters.map fun p => .setParameter p.1 p.2

/-- The generator is that of the outline: it takes all parameters. -/
def Means (t : GeneratorOutline) (g : Generator) : Prop :=
  Generator.setAll { group := t.group } t.parameters = .ok g

end GeneratorOutline

/-- A program as it is written. -/
structure Outline where
  /-- The groups in order. -/
  groups : List GroupOutline
  /-- The generator. -/
  generator : GeneratorOutline

namespace Outline

/-- The statements of an outline: groups, the generator and one end. -/
def statements (o : Outline) : List Statement :=
  o.groups.flatMap GroupOutline.statements ++ (o.generator.statements ++ [.run])

/-- The outline is that of a program. -/
structure WellFormed (o : Outline) : Prop where
  /-- There is a group. -/
  ne_nil : o.groups ≠ []
  /-- The groups can stand in a program. -/
  groups : ∀ t ∈ o.groups, t.WellFormed
  /-- No two groups have the same name. -/
  nodup : (o.groups.map GroupOutline.name).Nodup

/-- The environment is that of the outline: the groups under their names in order, the generator,
and nothing that is current. -/
def Means (o : Outline) (env : Environment) : Prop :=
  ∃ gs g, List.Forall₂ GroupOutline.Means o.groups gs ∧ o.generator.Means g ∧
    env = ⟨gs.map fun g => (g.name, g), some g, none, none⟩

end Outline

/-! ## Lists of fields -/

variable {selections : List Selection} {ds : List Declaration} {fs fs' : List Field}
  {name : Text} {cs : List Clause} {c : Clause} {d : Declaration}

/-- The last clause is set last. -/
theorem FieldDefinition.setAll_concat {start d : FieldDefinition} :
    start.setAll (cs ++ [c]) = .ok d ↔
      ∃ mid, start.setAll cs = .ok mid ∧ mid.update c.attr c.argument = .ok d :=
  foldlM_concat_eq_ok

/-- The clauses of a name are those of all selections in turn. -/
theorem clausesOf_append (selections more : List Selection) (name : Option Text) :
    clausesOf (selections ++ more) name = clausesOf selections name ++ clausesOf more name := by
  simp [clausesOf]

/-- A selection has clauses for its own name only. -/
theorem clausesOf_singleton (name : Text) (cs : List Clause) (name' : Option Text) :
    clausesOf [⟨name, cs⟩] name' = if some name = name' then cs else [] := by
  by_cases h : some name = name' <;> simp [clausesOf, h]

/-- A name that is not selected has no clauses. -/
theorem clausesOf_eq_nil {name : Option Text} (h : ∀ s ∈ selections, some s.name ≠ name) :
    clausesOf selections name = [] := by
  have hnone : (selections.filter fun s => some s.name = name) = [] := by
    rw [List.filter_eq_nil_iff]
    intro s hs
    simpa using h s hs
  rw [clausesOf, hnone]
  rfl

/-- The fields of some declarations have the declared names. -/
theorem names_of_means (h : List.Forall₂ (FieldMeans selections) ds fs) :
    fs.map Field.name = ds.map Declaration.name := by
  induction h with
  | nil => rfl
  | cons hd _ ih => rw [List.map_cons, List.map_cons, hd.name, ih]

/-- A selection without clauses changes nothing. -/
theorem fieldMeans_select (f : Field) :
    FieldMeans (selections ++ [⟨name, []⟩]) d f ↔ FieldMeans selections d f := by
  have heq : clausesOf (selections ++ [⟨name, []⟩]) d.name = clausesOf selections d.name := by
    rw [clausesOf_append, clausesOf_singleton, ite_self, List.append_nil]
  constructor
  · rintro ⟨hname, hd⟩
    exact ⟨hname, by rwa [heq] at hd⟩
  · rintro ⟨hname, hd⟩
    exact ⟨hname, by rwa [heq]⟩

/-- A clause changes nothing about a field of another name. -/
theorem fieldMeans_clause_of_ne (f : Field) (hd : d.name ≠ some name) :
    FieldMeans (selections ++ [⟨name, cs ++ [c]⟩]) d f ↔
      FieldMeans (selections ++ [⟨name, cs⟩]) d f := by
  have heq : clausesOf (selections ++ [⟨name, cs ++ [c]⟩]) d.name =
      clausesOf (selections ++ [⟨name, cs⟩]) d.name := by
    rw [clausesOf_append, clausesOf_append, clausesOf_singleton, clausesOf_singleton,
      if_neg (Ne.symm hd), if_neg (Ne.symm hd)]
  constructor
  · rintro ⟨hname, hd⟩
    exact ⟨hname, by rwa [heq] at hd⟩
  · rintro ⟨hname, hd⟩
    exact ⟨hname, by rwa [heq]⟩

/-- A clause is set last of all that go to the field that it is for. -/
theorem fieldMeans_clause (f' : Field) (hd : d.name = some name) :
    FieldMeans (selections ++ [⟨name, cs ++ [c]⟩]) d f' ↔
      ∃ f, FieldMeans (selections ++ [⟨name, cs⟩]) d f ∧
        ∃ d', f.definition.update c.attr c.argument = .ok d' ∧
          f' = { f with definition := d' } := by
  have heq : clausesOf (selections ++ [⟨name, cs ++ [c]⟩]) d.name =
      clausesOf (selections ++ [⟨name, cs⟩]) d.name ++ [c] := by
    rw [clausesOf_append, clausesOf_append, clausesOf_singleton, clausesOf_singleton,
      if_pos hd.symm, if_pos hd.symm, List.append_assoc]
  constructor
  · rintro ⟨hname, start, hstart, hall⟩
    rw [heq, FieldDefinition.setAll_concat] at hall
    obtain ⟨mid, hmid, hlast⟩ := hall
    refine ⟨⟨mid, f'.name⟩, ⟨hname, start, hstart, hmid⟩, f'.definition, hlast, rfl⟩
  · rintro ⟨f, ⟨hname, start, hstart, hmid⟩, d', hlast, rfl⟩
    refine ⟨hname, start, hstart, ?_⟩
    rw [heq, FieldDefinition.setAll_concat]
    exact ⟨_, hmid, hlast⟩

/-- A field that no selection is of holds what it is declared to. -/
theorem fieldsMean_declare (h : ∀ s ∈ selections, some s.name ≠ d.name) :
    List.Forall₂ (FieldMeans selections) (ds ++ [d]) fs' ↔
      ∃ fs, List.Forall₂ (FieldMeans selections) ds fs ∧
        ∃ start, d.content.definition = .ok start ∧ fs' = fs ++ [⟨start, d.name⟩] := by
  rw [forall₂_concat]
  constructor
  · rintro ⟨fs, f, rfl, hfs, hname, start, hstart, hall⟩
    rw [clausesOf_eq_nil h] at hall
    cases hall
    exact ⟨fs, hfs, f.definition, hstart, by rw [← hname]⟩
  · rintro ⟨fs, hfs, start, hstart, rfl⟩
    refine ⟨fs, _, rfl, hfs, rfl, start, hstart, ?_⟩
    rw [clausesOf_eq_nil h]
    rfl

/-- A selection without clauses changes no field. -/
theorem fieldsMean_select : List.Forall₂ (FieldMeans (selections ++ [⟨name, []⟩])) ds fs ↔
    List.Forall₂ (FieldMeans selections) ds fs :=
  ⟨.imp fun _ f => (fieldMeans_select f).1, .imp fun _ f => (fieldMeans_select f).2⟩

/-- A clause for another name changes no field. -/
theorem fieldsMean_clause_of_notMem (h : name ∉ ds.filterMap Declaration.name) :
    List.Forall₂ (FieldMeans (selections ++ [⟨name, cs ++ [c]⟩])) ds fs ↔
      List.Forall₂ (FieldMeans (selections ++ [⟨name, cs⟩])) ds fs := by
  have hne : ∀ d ∈ ds, d.name ≠ some name := by
    intro d hd heq
    exact h (List.mem_filterMap.2 ⟨d, hd, heq⟩)
  clear h
  induction ds generalizing fs with
  | nil => rw [List.forall₂_nil_left_iff, List.forall₂_nil_left_iff]
  | cons d ds ih =>
    rw [List.forall_mem_cons] at hne
    rw [List.forall₂_cons_left_iff, List.forall₂_cons_left_iff]
    simp only [fieldMeans_clause_of_ne _ hne.1, ih hne.2]

/-- A clause is set on the field of its name and on no other one. -/
theorem fieldsMean_clause (hnodup : (ds.filterMap Declaration.name).Nodup)
    (hname : name ∈ ds.filterMap Declaration.name) :
    List.Forall₂ (FieldMeans (selections ++ [⟨name, cs ++ [c]⟩])) ds fs' ↔
      ∃ fs, List.Forall₂ (FieldMeans (selections ++ [⟨name, cs⟩])) ds fs ∧
        ∃ f d', fs.find? (fun f => f.name = some name) = some f ∧
          f.definition.update c.attr c.argument = .ok d' ∧
            fs' = Group.setDefinition name d' fs := by
  induction ds generalizing fs' with
  | nil => cases hname
  | cons d ds ih =>
    by_cases hd : d.name = some name
    · rw [List.filterMap_cons_some hd, List.nodup_cons] at hnodup
      rw [List.forall₂_cons_left_iff]
      simp only [fieldsMean_clause_of_notMem hnodup.1, fieldMeans_clause _ hd]
      constructor
      · rintro ⟨_, fs, ⟨f, hf, d', hd', rfl⟩, hfs, rfl⟩
        have hfname : f.name = some name := hf.name.trans hd
        refine ⟨f :: fs, .cons hf hfs, f, d', ?_, hd', ?_⟩
        · rw [List.find?_cons_of_pos (by simp [hfname])]
        · rw [Group.setDefinition, if_pos hfname]
      · rintro ⟨_, hall, f, d', hfind, hd', rfl⟩
        obtain ⟨f', fs, hf, hfs, rfl⟩ := List.forall₂_cons_left_iff.1 hall
        have hfname : f'.name = some name := hf.name.trans hd
        rw [List.find?_cons_of_pos (by simp [hfname])] at hfind
        cases hfind
        refine ⟨_, fs, ⟨f, hf, d', hd', rfl⟩, hfs, ?_⟩
        rw [Group.setDefinition, if_pos hfname]
    · have hrest : (ds.filterMap Declaration.name).Nodup ∧
          name ∈ ds.filterMap Declaration.name := by
        cases hdname : d.name with
        | none =>
          rw [List.filterMap_cons_none hdname] at hnodup hname
          exact ⟨hnodup, hname⟩
        | some other =>
          rw [List.filterMap_cons_some hdname] at hnodup hname
          rw [List.nodup_cons] at hnodup
          refine ⟨hnodup.2, ?_⟩
          rcases List.mem_cons.1 hname with rfl | hname
          · exact absurd hdname hd
          · exact hname
      rw [List.forall₂_cons_left_iff]
      simp only [fieldMeans_clause_of_ne _ hd, ih hrest.1 hrest.2]
      constructor
      · rintro ⟨f', _, hf', ⟨fs, hfs, f, d', hfind, hd', rfl⟩, rfl⟩
        have hfname : f'.name ≠ some name := hf'.name ▸ hd
        refine ⟨f' :: fs, .cons hf' hfs, f, d', ?_, hd', ?_⟩
        · rw [List.find?_cons_of_neg (by simp [hfname]), hfind]
        · rw [Group.setDefinition, if_neg hfname]
      · rintro ⟨_, hall, f, d', hfind, hd', rfl⟩
        obtain ⟨f', fs, hf', hfs, rfl⟩ := List.forall₂_cons_left_iff.1 hall
        have hfname : f'.name ≠ some name := hf'.name ▸ hd
        rw [List.find?_cons_of_neg (by simp [hfname])] at hfind
        refine ⟨f', _, hf', ⟨fs, hfs, f, d', hfind, hd', rfl⟩, ?_⟩
        rw [Group.setDefinition, if_neg hfname]

end ByteLayout
