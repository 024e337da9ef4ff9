import ByteLayout.Proofs.Evaluation

/-!
# Sections of programs

A program cut at the statements that begin groups and the generator, whatever else it says. Each
group is a section: its name and the statements up to the next of these beginnings. A program can be
put together again from sections and its own generator (`Program.withSections`), and an evaluated
program is that of its own sections (`withSections_sections`).

`withSections_outline` says what becomes of the statements of an outline when its groups are
exchanged.
-/

namespace ByteLayout

/-! ## Cutting programs -/

namespace Statement

/-- Whether a statement begins a group or the generator. -/
def isHeader : Statement → Bool
  | startGroup _ | startGenerator _ => true
  | _ => false

/-- Whether a statement begins the generator. -/
def isGenerator : Statement → Bool
  | startGenerator _ => true
  | _ => false

end Statement

/-- A group as it stands in a program. -/
structure GroupSection where
  /-- The name of the group. -/
  name : Text
  /-- The statements up to the next group or the generator. -/
  contents : List Statement
  deriving DecidableEq, Repr

/-- The statements of a section. -/
def GroupSection.statements (t : GroupSection) : List Statement :=
  .startGroup t.name :: t.contents

/-- The sections of some statements, in order. -/
def sectionsOf : List Statement → List GroupSection
  | [] => []
  | .startGroup name :: ss => ⟨name, ss.takeWhile fun s => !s.isHeader⟩ :: sectionsOf ss
  | _ :: ss => sectionsOf ss

namespace Program

/-- The sections of a program, in order. -/
def sections (p : Program) : List GroupSection :=
  sectionsOf p.statements

/-- The statements of a program from the generator on. -/
def generatorPart (p : Program) : List Statement :=
  p.statements.dropWhile fun s => !s.isGenerator

/-- The program with other sections before its generator. -/
def withSections (p : Program) (ts : List GroupSection) : Program :=
  ⟨ts.flatMap GroupSection.statements ++ p.generatorPart⟩

end Program

/-! ## Groups -/

variable {ss rest : List Statement} {p : Program} {env : Environment}

/-- Nothing in the body of a group begins a section. -/
theorem BodyItem.isHeader_statements (item : BodyItem) :
    ∀ s ∈ item.statements, s.isHeader = false := by
  cases item with
  | declaration d =>
    obtain ⟨content, name⟩ := d
    cases content <;> simp [statements, Declaration.statement, Statement.isHeader]
  | selection t =>
    simp [statements, Selection.statements, Clause.statement, Statement.isHeader]

namespace GroupOutline

/-- The section that a group is written as. -/
def written (t : GroupOutline) : GroupSection :=
  ⟨t.name, t.contents⟩

/-- Nothing begins within a group. -/
theorem isHeader_contents (t : GroupOutline) : ∀ s ∈ t.contents, s.isHeader = false := by
  intro s hs
  rcases List.mem_append.1 hs with hs | hs
  · obtain ⟨item, -, hs⟩ := List.mem_flatMap.1 hs
    exact item.isHeader_statements s hs
  · cases hsection : t.fieldsSection with
    | none => simp [hsection] at hs
    | some selections =>
      rw [hsection] at hs
      rcases List.mem_cons.1 hs with rfl | hs
      · rfl
      · obtain ⟨selection, -, hs⟩ := List.mem_flatMap.1 hs
        exact (BodyItem.selection selection).isHeader_statements s hs

end GroupOutline

/-! ## Outlines -/

theorem Statement.isGenerator_of_isHeader {s : Statement} (h : s.isHeader = false) :
    s.isGenerator = false := by
  cases s with
  | startGenerator name => cases h
  | _ => rfl

/-- Statements that begin no group belong to no section of their own. -/
theorem sectionsOf_append (h : ∀ s ∈ ss, s.isHeader = false) :
    sectionsOf (ss ++ rest) = sectionsOf rest := by
  induction ss with
  | nil => rfl
  | cons s ss ih =>
    rw [List.forall_mem_cons] at h
    rw [List.cons_append, ← ih h.2]
    cases s with
    | startGroup name => cases h.1
    | _ => rfl

/-- There are no sections behind the generator. -/
theorem sectionsOf_generator (u : GeneratorOutline) :
    sectionsOf (u.statements ++ [.run]) = [] := by
  have hparameters : ∀ s ∈ u.parameters.map fun p => Statement.setParameter p.1 p.2,
      s.isHeader = false := by
    intro s hs
    obtain ⟨p, -, rfl⟩ := List.mem_map.1 hs
    rfl
  show sectionsOf (u.parameters.map (fun p => Statement.setParameter p.1 p.2) ++ [.run]) = []
  rw [sectionsOf_append hparameters]
  rfl

/-- The sections of an outline are its groups as they are written. -/
theorem sectionsOf_outline (ts : List GroupOutline) (u : GeneratorOutline) :
    sectionsOf (Outline.statements ⟨ts, u⟩) = ts.map GroupOutline.written := by
  induction ts with
  | nil => exact sectionsOf_generator u
  | cons t ts ih =>
    have hsplit : Outline.statements ⟨t :: ts, u⟩ =
        .startGroup t.name :: (t.contents ++ Outline.statements ⟨ts, u⟩) := by
      simp [Outline.statements, GroupOutline.statements]
    have hcontents : ∀ s ∈ t.contents, !s.isHeader := by
      simpa using t.isHeader_contents
    have hnext : ∀ s ∈ (Outline.statements ⟨ts, u⟩).head?, (!s.isHeader) = false := by
      cases ts <;> simp [Outline.statements, GroupOutline.statements, GeneratorOutline.statements,
        Statement.isHeader]
    rw [hsplit, sectionsOf, takeWhile_append_stop hcontents hnext,
      sectionsOf_append t.isHeader_contents, ih]
    rfl

/-- The sections end where the generator begins. -/
theorem dropWhile_outline (ts : List GroupOutline) (u : GeneratorOutline) :
    (Outline.statements ⟨ts, u⟩).dropWhile (!·.isGenerator) = u.statements ++ [.run] := by
  refine dropWhile_append_stop ?_ (by simp [GeneratorOutline.statements, Statement.isGenerator])
  intro s hs
  obtain ⟨t, -, hs⟩ := List.mem_flatMap.1 hs
  rcases List.mem_cons.1 hs with rfl | hs
  · rfl
  · rw [Statement.isGenerator_of_isHeader (t.isHeader_contents s hs)]
    rfl

/-- A program with the sections of other groups is that of the outline with these groups. -/
theorem withSections_outline {o : Outline} (h : o.statements = p.statements)
    (ts : List GroupOutline) :
    p.withSections (ts.map GroupOutline.written) = ⟨Outline.statements ⟨ts, o.generator⟩⟩ := by
  obtain ⟨groups, u⟩ := o
  rw [Program.withSections, Program.generatorPart, ← h, dropWhile_outline, List.flatMap_map]
  rfl

/-- The sections of a program are the groups of its outline as they are written. -/
theorem sections_outline {o : Outline} (h : o.statements = p.statements) :
    p.sections = o.groups.map GroupOutline.written := by
  rw [Program.sections, ← h]
  exact sectionsOf_outline o.groups o.generator

/-- An evaluated program is that of its own sections. -/
theorem withSections_sections (h : evaluate p = .ok env) : p.withSections p.sections = p := by
  obtain ⟨o, hstatements, -, -⟩ := Evaluator.run_finished_iff.1 (evaluate_eq_ok.1 h)
  rw [sections_outline hstatements, withSections_outline hstatements]
  obtain ⟨statements⟩ := p
  exact congrArg Program.mk hstatements

end ByteLayout
