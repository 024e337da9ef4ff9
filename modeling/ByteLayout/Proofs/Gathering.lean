import ByteLayout.Program.Writer

/-!
# Gathering statements into forms

A statement is gathered into a form together with those after it that belong to the form, or it is
reported as an error. `gatherForms_sound`: forms without errors hold all statements but the ends of
programs, in order, and have their clauses. `gatherForms_ofForms`: the statements of forms that have
their clauses are gathered without errors, though not always into the same forms, since a field and
an update of it that follows become one.
-/

namespace ByteLayout

variable {ss rest after : List Statement} {cs : List Clause}

/-- The form has a clause wherever it has a place for clauses. -/
def Form.Complete : Form → Prop
  | fieldWith _ _ clauses | update _ clauses => clauses ≠ []
  | _ => True

/-! ## Clauses at the front -/

/-- The statement of a clause is that which it was made of. -/
theorem Clause.statement_of_ofStatement? {s : Statement} {c : Clause}
    (h : Clause.ofStatement? s = some c) : c.statement = s := by
  unfold Clause.ofStatement? at h
  split at h
  · cases h
    rfl
  · cases h

/-- The clauses at the front are the statements that are taken. -/
theorem leadingClauses_sound (h : leadingClauses ss = (cs, after)) :
    ss = cs.map Clause.statement ++ after := by
  unfold leadingClauses at h
  cases h
  induction ss with
  | nil => rfl
  | cons s ss ih =>
    cases hs : Clause.ofStatement? s with
    | none => simp [hs]
    | some c => simp [hs, Clause.statement_of_ofStatement? hs, ← ih]

/-- Clauses before a statement that is none are all the clauses at the front. -/
theorem leadingClauses_complete (cs : List Clause)
    (h : ∀ s ∈ after.head?, Clause.ofStatement? s = none) :
    leadingClauses (cs.map Clause.statement ++ after) = (cs, after) := by
  unfold leadingClauses
  induction cs with
  | nil =>
    cases after with
    | nil => rfl
    | cons s after =>
      have hs := h s rfl
      simp [hs]
  | cons c cs ih =>
    obtain ⟨htake, hdrop⟩ := Prod.mk.inj ih
    rw [List.map_cons, List.cons_append, List.takeWhile_cons, List.dropWhile_cons]
    simp only [Clause.ofStatement?_statement, Option.isSome_some, if_true, List.filterMap_cons,
      htake, hdrop]

/-- Clauses that are a field's own stand behind a selection of the field. -/
theorem ownClauses?_sound {name : Text} (h : ownClauses? name ss = some (cs, after)) :
    ss = .selectField name :: (cs.map Clause.statement ++ after) ∧ cs ≠ [] := by
  unfold ownClauses? at h
  split at h
  · split at h
    · next heq =>
      subst heq
      split at h
      · cases h
      · next hlead =>
        cases h
        exact ⟨congrArg _ (leadingClauses_sound hlead), List.cons_ne_nil _ _⟩
    · cases h
  · cases h

/-- A selection and all updates behind it are clauses of the field's own. -/
theorem ownClauses?_complete (name : Text) (hcs : cs ≠ [])
    (h : ∀ s ∈ after.head?, Clause.ofStatement? s = none) :
    ownClauses? name (.selectField name :: (cs.map Clause.statement ++ after)) =
      some (cs, after) := by
  have hlead := leadingClauses_complete cs h
  obtain ⟨c, cs, rfl⟩ := List.exists_cons_of_ne_nil hcs
  rw [ownClauses?, if_pos rfl, hlead]

/-! ## One form -/

/-- A form that is gathered holds its statements and has its clauses. -/
theorem gatherNext_sound {s : Statement} {f : Form}
    (h : gatherNext s rest = (some (.ok f), after)) :
    s :: rest = f.statements ++ after ∧ f.Complete := by
  cases s with
  | startGroup name | startGenerator name | constantField l name | startFieldsSection
  | setParameter name value =>
    cases h
    exact ⟨rfl, trivial⟩
  | variableField kind name =>
    cases name with
    | none =>
      cases h
      exact ⟨rfl, trivial⟩
    | some name =>
      simp only [gatherNext] at h
      split at h
      · next hown =>
        cases h
        obtain ⟨rfl, hne⟩ := ownClauses?_sound hown
        exact ⟨rfl, hne⟩
      · cases h
        exact ⟨rfl, trivial⟩
  | selectField name =>
    simp only [gatherNext] at h
    split at h
    · cases h
    · next hlead =>
      cases h
      have hsplit := leadingClauses_sound hlead
      exact ⟨congrArg _ hsplit, List.cons_ne_nil _ _⟩
  | updateField attr argument => cases h
  | run => cases h

/-- What is gathered into nothing is the end of a program. -/
theorem gatherNext_eq_none {s : Statement} (h : gatherNext s rest = (none, after)) :
    s = .run ∧ after = rest := by
  cases s with
  | run =>
    cases h
    exact ⟨rfl, rfl⟩
  | variableField kind name =>
    cases name with
    | none => cases h
    | some name =>
      simp only [gatherNext] at h
      split at h <;> cases h
  | selectField name =>
    simp only [gatherNext] at h
    split at h <;> cases h
  | _ => cases h

/-! ## All forms -/

/-- What was gathered before stays in front. -/
theorem gatherFrom_eq (gathered : List (Except WriteError Form)) (ss : List Statement) :
    gatherFrom gathered ss = gathered.reverse ++ gatherForms ss := by
  unfold gatherForms
  suffices h : ∀ n gathered ss, ss.length ≤ n →
      gatherFrom gathered ss = gathered.reverse ++ gatherFrom [] ss from
    h ss.length gathered ss (Nat.le_refl _)
  intro n
  induction n with
  | zero =>
    intro gathered ss hn
    obtain rfl := List.eq_nil_of_length_eq_zero (Nat.le_zero.1 hn)
    simp [gatherFrom]
  | succ n ih =>
    intro gathered ss hn
    cases ss with
    | nil => simp [gatherFrom]
    | cons s rest =>
      have hshort : (gatherNext s rest).2.length ≤ n :=
        Nat.le_trans (length_gatherNext s rest) (Nat.le_of_succ_le_succ hn)
      rw [gatherFrom, gatherFrom, ih _ _ hshort, ih ((gatherNext s rest).1.toList ++ []) _ hshort]
      cases (gatherNext s rest).1 <;> simp

theorem gatherForms_nil : gatherForms [] = [] := by
  simp [gatherForms, gatherFrom]

/-- The first statement decides what the first form is. -/
theorem gatherForms_cons (s : Statement) (rest : List Statement) : gatherForms (s :: rest) =
    (gatherNext s rest).1.toList ++ gatherForms (gatherNext s rest).2 := by
  rw [gatherForms, gatherFrom, gatherFrom_eq]
  cases (gatherNext s rest).1 <;> simp

/-- No form ends the program. -/
theorem Form.run_notMem_statements (f : Form) : .run ∉ f.statements := by
  cases f <;> simp [statements, Clause.statement]

/-- Without the end among them statements are left as they are. -/
theorem filter_ne_run (h : .run ∉ ss) : ss.filter (· ≠ .run) = ss := by
  rw [List.filter_eq_self]
  intro s hs
  rw [decide_eq_true_eq]
  rintro rfl
  exact h hs

/-- Forms that are gathered without an error hold all statements but the ends of programs. -/
theorem gatherForms_sound {fs : List Form} (h : gatherForms ss = fs.map .ok) :
    fs.flatMap Form.statements = ss.filter (· ≠ .run) ∧ ∀ f ∈ fs, f.Complete := by
  induction hn : ss.length using Nat.strongRecOn generalizing ss fs with
  | ind n ih =>
    cases ss with
    | nil =>
      rw [gatherForms_nil] at h
      obtain rfl := List.map_eq_nil_iff.1 h.symm
      simp
    | cons s rest =>
      have hlen := length_gatherNext s rest
      rw [gatherForms_cons] at h
      rcases hnext : gatherNext s rest with ⟨found, after⟩
      rw [hnext] at h hlen
      have hshort : after.length < n := by
        rw [← hn]
        exact Nat.lt_succ_of_le hlen
      rcases found with _ | ⟨e⟩ | ⟨f⟩
      · obtain ⟨rfl, rfl⟩ := gatherNext_eq_none hnext
        obtain ⟨hfs, hall⟩ := ih _ hshort h rfl
        exact ⟨by simpa using hfs, hall⟩
      · cases fs <;> cases h
      · obtain ⟨hstatements, hcomplete⟩ := gatherNext_sound hnext
        cases fs with
        | nil => cases h
        | cons g gs =>
          obtain ⟨⟨⟩, htail⟩ := List.cons.inj h
          obtain ⟨hfs, hall⟩ := ih _ hshort htail rfl
          have hfilter := filter_ne_run f.run_notMem_statements
          refine ⟨?_, ?_⟩
          · rw [hstatements, List.filter_append, List.flatMap_cons, hfilter, hfs]
          · intro g hg
            rcases List.mem_cons.1 hg with rfl | hg
            · exact hcomplete
            · exact hall g hg

/-- No form begins with an update, and neither does the end of a program. -/
theorem head_ofForms (fs : List Form) :
    ∀ s ∈ (Program.ofForms fs).statements.head?, Clause.ofStatement? s = none := by
  cases fs with
  | nil =>
    rintro s ⟨⟩
    rfl
  | cons f fs =>
    intro s hs
    cases f <;> cases hs <;> rfl

/-- A field takes no clauses before other forms than an update of it. -/
theorem ownClauses?_ofForms {name : Text} {fs : List Form}
    (h : ∀ clauses more, fs ≠ .update name clauses :: more) :
    ownClauses? name (Program.ofForms fs).statements = none := by
  cases fs with
  | nil => rfl
  | cons f fs =>
    cases f with
    | update selected clauses =>
      have hne : selected ≠ name := by
        rintro rfl
        exact h clauses fs rfl
      simp only [Program.ofForms, List.flatMap_cons, Form.statements, List.cons_append, ownClauses?,
        if_neg hne]
    | _ => rfl

/-- The first of some forms is gathered, alone or with the next one. -/
theorem gatherNext_ofForms {f : Form} (fs : List Form) (hf : f.Complete)
    (hfs : ∀ f ∈ fs, f.Complete) :
    ∃ s rest g gs, (Program.ofForms (f :: fs)).statements = s :: rest ∧
      gatherNext s rest = (some (.ok g), (Program.ofForms gs).statements) ∧
      gs.length ≤ fs.length ∧ ∀ f ∈ gs, f.Complete := by
  cases f with
  | group name | generator name | constant l name | fieldsSection | parameter name value =>
    exact ⟨_, _, _, fs, rfl, rfl, Nat.le_refl _, hfs⟩
  | field kind name =>
    cases name with
    | none => exact ⟨_, _, _, fs, rfl, rfl, Nat.le_refl _, hfs⟩
    | some name =>
      by_cases hown : ∃ clauses more, fs = .update name clauses :: more
      · obtain ⟨clauses, more, rfl⟩ := hown
        have hclauses : clauses ≠ [] := hfs (.update name clauses) List.mem_cons_self
        have hown := ownClauses?_complete name hclauses (head_ofForms more)
        refine ⟨.variableField kind (some name), .selectField name ::
          (clauses.map Clause.statement ++ (Program.ofForms more).statements),
          .fieldWith kind name clauses, more, ?_, ?_, Nat.le_succ _, ?_⟩
        · simp [Program.ofForms, Form.statements]
        · simp only [gatherNext, hown]
        · exact fun f hf => hfs f (List.mem_cons_of_mem _ hf)
      · have hown : ownClauses? name (Program.ofForms fs).statements = none :=
          ownClauses?_ofForms fun clauses more he => hown ⟨clauses, more, he⟩
        refine ⟨.variableField kind (some name), (Program.ofForms fs).statements,
          .field kind (some name), fs, rfl, ?_, Nat.le_refl _, hfs⟩
        simp only [gatherNext, hown]
  | fieldWith kind name clauses =>
    have hown := ownClauses?_complete name hf (head_ofForms fs)
    refine ⟨.variableField kind (some name), .selectField name ::
      (clauses.map Clause.statement ++ (Program.ofForms fs).statements),
      .fieldWith kind name clauses, fs, ?_, ?_, Nat.le_refl _, hfs⟩
    · simp [Program.ofForms, Form.statements]
    · simp only [gatherNext, hown]
  | update name clauses =>
    have hlead := leadingClauses_complete clauses (head_ofForms fs)
    obtain ⟨c, cs, rfl⟩ := List.exists_cons_of_ne_nil hf
    refine ⟨.selectField name, (c :: cs).map Clause.statement ++ (Program.ofForms fs).statements,
      .update name (c :: cs), fs, ?_, ?_, Nat.le_refl _, hfs⟩
    · simp [Program.ofForms, Form.statements]
    · simp only [gatherNext, hlead]

/-- The statements of forms that have their clauses are gathered without an error. -/
theorem gatherForms_ofForms {fs : List Form} (h : ∀ f ∈ fs, f.Complete) :
    ∃ gs : List Form, gatherForms (Program.ofForms fs).statements = gs.map .ok := by
  induction hn : fs.length using Nat.strongRecOn generalizing fs with
  | ind n ih =>
    cases fs with
    | nil =>
      refine ⟨[], ?_⟩
      show gatherForms [.run] = []
      rw [gatherForms_cons]
      exact gatherForms_nil
    | cons f fs =>
      have hfs : ∀ f ∈ fs, f.Complete := fun f hf => h f (List.mem_cons_of_mem _ hf)
      obtain ⟨s, rest, g, more, hs, hnext, hshort, hmore⟩ :=
        gatherNext_ofForms fs (h f List.mem_cons_self) hfs
      have hless : more.length < n := by
        rw [← hn]
        exact Nat.lt_succ_of_le hshort
      obtain ⟨gs, hgs⟩ := ih _ hless hmore rfl
      refine ⟨g :: gs, ?_⟩
      rw [hs, gatherForms_cons, hnext, hgs]
      rfl

/-- Forms that have their clauses are gathered into forms with the same statements. -/
theorem gather_ofForms {fs : List Form} (h : ∀ f ∈ fs, f.Complete) :
    ∃ gs : List Form, gatherForms (Program.ofForms fs).statements = gs.map .ok ∧
      Program.ofForms gs = Program.ofForms fs ∧ ∀ g ∈ gs, g.Complete := by
  obtain ⟨gs, hgs⟩ := gatherForms_ofForms h
  obtain ⟨hstatements, hcomplete⟩ := gatherForms_sound hgs
  refine ⟨gs, hgs, ?_, hcomplete⟩
  have hrun : .run ∉ fs.flatMap Form.statements := by
    intro hrun
    obtain ⟨f, -, hin⟩ := List.mem_flatMap.1 hrun
    exact f.run_notMem_statements hin
  rw [Program.ofForms, hstatements]
  simp only [Program.ofForms, List.filter_append, filter_ne_run hrun]
  simp

end ByteLayout
