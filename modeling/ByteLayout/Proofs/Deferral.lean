import ByteLayout.Proofs.Sections

/-!
# Selections behind the fields

A group may select fields among its declarations. `GroupSection.deferred` moves these selections
into the section of fields of the group, in front of those that are there.

`evaluate_deferred`: a program whose groups are all rewritten in this way has the same environment.
An outline says the same with its selections deferred: what a group means depends on its
declarations and on its selections, and not on how they stand among one another.
-/

namespace ByteLayout

/-! ## Deferring -/

/-- Whether a statement declares a field. -/
def Statement.isDeclaration : Statement → Bool
  | variableField .. | constantField .. => true
  | _ => false

/-- The section with its selections behind its fields: the declarations, and then one section of
fields, which holds the selections that stood among them and what the old one held. -/
def GroupSection.deferred (t : GroupSection) : GroupSection :=
  let body := t.contents.takeWhile (· ≠ .startFieldsSection)
  let old := (t.contents.dropWhile (· ≠ .startFieldsSection)).tail
  ⟨t.name, body.filter Statement.isDeclaration ++
    .startFieldsSection :: (body.filter (!·.isDeclaration) ++ old)⟩

/-- The program with the selections of every group behind its fields. -/
def Program.deferred (p : Program) : Program :=
  p.withSections (p.sections.map GroupSection.deferred)

/-! ## Bodies of groups -/

section Bodies

variable {d : Declaration} {s : Selection} {body : List BodyItem}

theorem Declaration.isDeclaration_statement (d : Declaration) : d.statement.isDeclaration := by
  obtain ⟨content, name⟩ := d
  cases content <;> rfl

/-- A selection and its updates declare nothing. -/
theorem Selection.isDeclaration_statements (s : Selection) :
    ∀ x ∈ s.statements, x.isDeclaration = false := by
  simp [statements, Clause.statement, Statement.isDeclaration]

/-- No section of fields begins within a body. -/
theorem BodyItem.ne_startFieldsSection (item : BodyItem) :
    ∀ x ∈ item.statements, x ≠ .startFieldsSection := by
  cases item with
  | declaration d =>
    obtain ⟨content, name⟩ := d
    cases content <;> simp [statements, Declaration.statement]
  | selection s => simp [statements, Selection.statements, Clause.statement]

/-- The declarations among the statements of a body. -/
theorem filter_isDeclaration (body : List BodyItem) :
    (body.flatMap BodyItem.statements).filter Statement.isDeclaration =
      (body.filterMap BodyItem.declaration?).map Declaration.statement := by
  induction body with
  | nil => rfl
  | cons item body ih =>
    rw [List.flatMap_cons, List.filter_append, ih]
    cases item with
    | declaration d =>
      have hd : [d.statement].filter Statement.isDeclaration = [d.statement] :=
        List.filter_cons_of_pos d.isDeclaration_statement
      exact congrArg (· ++ _) hd
    | selection s =>
      have hs : s.statements.filter Statement.isDeclaration = [] := by
        simpa using s.isDeclaration_statements
      exact congrArg (· ++ _) hs

/-- The statements of a body that are no declarations are its selections. -/
theorem filter_not_isDeclaration (body : List BodyItem) :
    (body.flatMap BodyItem.statements).filter (!·.isDeclaration) =
      (body.filterMap BodyItem.selection?).flatMap Selection.statements := by
  induction body with
  | nil => rfl
  | cons item body ih =>
    rw [List.flatMap_cons, List.filter_append, ih]
    cases item with
    | declaration d =>
      have hd : [d.statement].filter (!·.isDeclaration) = [] := by
        simp [d.isDeclaration_statement]
      exact congrArg (· ++ _) hd
    | selection s =>
      have hs : s.statements.filter (!·.isDeclaration) = s.statements := by
        simpa using s.isDeclaration_statements
      exact congrArg (· ++ _) hs

/-- A deferred section, where the body and the section of fields are told apart. -/
theorem deferred_body (name : Text) (body : List BodyItem) (rest : List Statement)
    (hrest : ∀ x ∈ rest.head?, x = .startFieldsSection) :
    GroupSection.deferred ⟨name, body.flatMap BodyItem.statements ++ rest⟩ =
      ⟨name, (body.filterMap BodyItem.declaration?).map Declaration.statement ++
        .startFieldsSection :: ((body.filterMap BodyItem.selection?).flatMap Selection.statements ++
          rest.tail)⟩ := by
  have hbody : ∀ x ∈ body.flatMap BodyItem.statements,
      decide (x ≠ .startFieldsSection) = true := by
    intro x hx
    obtain ⟨item, -, hx⟩ := List.mem_flatMap.1 hx
    exact decide_eq_true (item.ne_startFieldsSection x hx)
  have hstop : ∀ x ∈ rest.head?, decide (x ≠ .startFieldsSection) = false := by
    intro x hx
    exact decide_eq_false (not_not_intro (hrest x hx))
  unfold GroupSection.deferred
  dsimp only
  rw [takeWhile_append_stop hbody hstop, dropWhile_append_stop hbody hstop, filter_isDeclaration,
    filter_not_isDeclaration]

end Bodies

/-! ## Outlines of groups -/

namespace GroupOutline

variable {t : GroupOutline} {g : Group}

/-- The outline with its selections behind its declarations. -/
def deferred (t : GroupOutline) : GroupOutline :=
  ⟨t.name, t.declarations.map .declaration, some t.selections⟩

/-- A deferred group declares what it declared. -/
@[simp] theorem declarations_deferred (t : GroupOutline) :
    t.deferred.declarations = t.declarations := by
  simp [deferred, declarations, List.filterMap_map, Function.comp_def, BodyItem.declaration?]

/-- A deferred group makes the selections that it made. -/
@[simp] theorem selections_deferred (t : GroupOutline) : t.deferred.selections = t.selections := by
  simp [deferred, selections, BodyItem.selection?]

/-- A deferred group has the names that it had. -/
theorem aliases_deferred (t : GroupOutline) : aliases t.deferred.body = aliases t.body :=
  congrArg (List.filterMap Declaration.name) t.declarations_deferred

/-- A group that can stand in a program can also stand there with its selections deferred. -/
theorem WellFormed.deferred (h : t.WellFormed) : t.deferred.WellFormed := by
  have hbody : ∀ item ∈ t.deferred.body, item.selection? = none := by
    intro item hitem
    obtain ⟨d, -, rfl⟩ := List.mem_map.1 hitem
    rfl
  constructor
  · refine (List.pairwise_map.2 (List.pairwise_of_forall fun _ _ => ?_)).isChain
    exact .inl rfl
  · intro _ item hitem
    exact hbody item (List.mem_of_getLast? hitem)
  · rw [aliases_deferred]
    exact h.nodup
  · intro before s hs
    have hselection := hbody (.selection s) (hs.subset (by simp))
    cases hselection
  · intro s hs
    rw [aliases_deferred]
    exact h.selected_mem hs

/-- A group means the same with its selections deferred. -/
theorem means_deferred : t.deferred.Means g ↔ t.Means g := by
  constructor
  · intro h
    exact ⟨h.name, by simpa using h.fields⟩
  · intro h
    exact ⟨h.name, by simpa using h.fields⟩

/-- The section of a deferred outline is the deferred section of the outline. -/
theorem written_deferred (t : GroupOutline) : t.deferred.written = t.written.deferred := by
  obtain ⟨name, body, fieldsSection⟩ := t
  have hdeclarations : ((body.filterMap BodyItem.declaration?).map BodyItem.declaration).flatMap
      BodyItem.statements = (body.filterMap BodyItem.declaration?).map Declaration.statement := by
    rw [List.flatMap_map, List.map_eq_flatMap]
    rfl
  have hcontents : (deferred ⟨name, body, fieldsSection⟩).contents =
      (body.filterMap BodyItem.declaration?).map Declaration.statement ++ .startFieldsSection ::
        ((body.filterMap BodyItem.selection?).flatMap Selection.statements ++
          (fieldsSection.getD []).flatMap Selection.statements) := by
    rw [← hdeclarations, ← List.flatMap_append]
    rfl
  rw [written, written, hcontents]
  cases fieldsSection with
  | none => exact (deferred_body name body [] (by simp)).symm
  | some selections =>
    exact (deferred_body name body
      (.startFieldsSection :: selections.flatMap Selection.statements) (by simp)).symm

end GroupOutline

/-! ## Programs -/

/-- A program with all selections behind the fields of their groups has the environment of the
program as it stands, and nothing else of the program is changed. -/
theorem evaluate_deferred {p : Program} {env : Environment} (h : evaluate p = .ok env) :
    p.withSections p.sections = p ∧ evaluate p.deferred = .ok env := by
  refine ⟨withSections_sections h, ?_⟩
  obtain ⟨o, hstatements, hwf, gs, g, hgs, hg, rfl⟩ :=
    Evaluator.run_finished_iff.1 (evaluate_eq_ok.1 h)
  have hsections : p.sections.map GroupSection.deferred =
      (o.groups.map GroupOutline.deferred).map GroupOutline.written := by
    rw [sections_outline hstatements, List.map_map, List.map_map]
    exact List.map_congr_left fun t _ => t.written_deferred.symm
  have hnames : (o.groups.map GroupOutline.deferred).map GroupOutline.name =
      o.groups.map GroupOutline.name := by
    rw [List.map_map]
    rfl
  rw [Program.deferred, hsections, withSections_outline hstatements]
  refine evaluate_eq_ok.2 (Evaluator.run_finished_iff.2 ⟨_, rfl, ⟨?_, ?_, ?_⟩, gs, g, ?_, hg, rfl⟩)
  · simpa using hwf.ne_nil
  · intro t ht
    obtain ⟨u, hu, rfl⟩ := List.mem_map.1 ht
    exact (hwf.groups u hu).deferred
  · rw [hnames]
    exact hwf.nodup
  · exact List.forall₂_map_left_iff.2
      (hgs.imp fun _ _ hmeans => GroupOutline.means_deferred.2 hmeans)

/-- A program that updates one field among declarations and in a section of fields. -/
def interleavedProgram : Program :=
  ⟨[.startGroup "a", .variableField "u8" (some "n"), .selectField "n",
    .updateField "RANGE" (.group [.literal (.integer 1), .literal (.integer 5)]),
    .variableField "string" (some "s"), .selectField "s",
    .updateField "LEN" (.literal (.integer 3)), .constantField (.text "x") none,
    .startFieldsSection, .selectField "n",
    .updateField "RANGE" (.group [.literal (.integer 2), .literal (.integer 4)]),
    .startGroup "b", .variableField "bytes" (some "n"), .selectField "n",
    .updateField "LEN" (.literal (.integer 2)), .startGenerator "a",
    .setParameter "OUT_MAX" (.literal (.integer 9)), .run]⟩

/-- The environment of this program. -/
def interleavedEnvironment : Environment where
  groups := [("a", ⟨"a", [⟨.textNumber ⟨⟨false, .one⟩, 2, 4⟩ none, some "n"⟩,
      ⟨.text ⟨3, 3⟩, some "s"⟩, ⟨.constant "x", none⟩]⟩),
    ("b", ⟨"b", [⟨.bytes ⟨2, 2⟩, some "n"⟩]⟩)]
  generator := some ⟨"a", 0, 9, []⟩

/-- The deferred form of `interleavedProgram` has its environment. -/
theorem interleavedProgram_deferred :
    evaluate interleavedProgram = .ok interleavedEnvironment ∧
      interleavedProgram.deferred = ⟨[.startGroup "a", .variableField "u8" (some "n"),
        .variableField "string" (some "s"), .constantField (.text "x") none, .startFieldsSection,
        .selectField "n",
        .updateField "RANGE" (.group [.literal (.integer 1), .literal (.integer 5)]),
        .selectField "s", .updateField "LEN" (.literal (.integer 3)), .selectField "n",
        .updateField "RANGE" (.group [.literal (.integer 2), .literal (.integer 4)]),
        .startGroup "b", .variableField "bytes" (some "n"), .startFieldsSection, .selectField "n",
        .updateField "LEN" (.literal (.integer 2)), .startGenerator "a",
        .setParameter "OUT_MAX" (.literal (.integer 9)), .run]⟩ ∧
      evaluate interleavedProgram.deferred = .ok interleavedEnvironment := by
  have heval : evaluate interleavedProgram = .ok interleavedEnvironment := by decide +kernel
  exact ⟨heval, by decide +kernel, (evaluate_deferred heval).2⟩

end ByteLayout
