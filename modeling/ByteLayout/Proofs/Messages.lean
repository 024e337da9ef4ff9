import ByteLayout.Proofs.Refusals
import ByteLayout.Proofs.SingleLine

/-!
# Messages of texts that are refused

A message shows names, kinds and attributes of the program, how its literals are called, and fixed
texts; in a text that is read, none of them holds a line end. The one exception is the text of a
literal that is taken for a display format, which is shown as it is.

`compile_line`: the failure of a text is told of on one line, unless it is such a text that holds a
line end.
-/

namespace ByteLayout

open Grammar Lexeme

variable {s : Statement} {ss : List Statement} {p : Problem} {argument value : Expr} {attr : Text}

/-! ## Texts of a program -/

/-- A name is on one line. -/
theorem Lexeme.IsName.singleLine {text : Text} (h : IsName text) : SingleLine text := by
  obtain ⟨c, cs, htext, hc, hcs⟩ := h
  rw [SingleLine, htext, List.forall_mem_cons]
  exact ⟨isLineEnd_eq_false_of (by decide) hc,
    fun x hx => isLineEnd_eq_false_of (by decide) (hcs x hx)⟩

/-- A word of the language is on one line, in any case. -/
theorem singleLine_of_lower_mem {text : Text}
    (h : Text.lower text ∈ typeNames ∨ Text.lower text ∈ reservedNames) : SingleLine text :=
  (isName_of_lower (isName_of_mem h)).singleLine

/-- The name of a format is on one line. -/
theorem NumberFormat.singleLine_name (f : NumberFormat) : SingleLine f.name := by
  obtain ⟨signed, width⟩ := f
  cases signed <;> cases width <;> decide

/-- The name of a stage is on one line. -/
theorem Stage.singleLine_name (stage : Stage) : SingleLine stage.name := by
  cases stage <;> decide

/-- What a statement is called is on one line. -/
theorem Statement.singleLine_label (s : Statement) : SingleLine s.label := by
  cases s <;> simp +decide [label]

/-- What a definition is called is on one line. -/
theorem FieldDefinition.singleLine_kindName (d : FieldDefinition) : SingleLine d.kindName := by
  cases d <;> simp +decide [kindName]

/-- A literal that can be spelled is called by a name on one line. -/
theorem Literal.Spellable.singleLine_describe {l : Literal} (h : l.Spellable) :
    SingleLine l.describe := by
  cases l with
  | integer | text | bytes => simp +decide [describe]
  | reserved name => exact singleLine_of_lower_mem (.inr h)

/-- So is what a literal of an argument is called. -/
theorem Expr.Spellable.singleLine_describe (h : argument.Spellable) {l : Literal}
    (hl : .literal l ∈ argument.items) : SingleLine l.describe := by
  cases h with
  | one h =>
    obtain ⟨⟩ := List.mem_singleton.1 hl
    exact h.singleLine_describe
  | many h _ =>
    obtain ⟨l', hl', heq⟩ := List.mem_map.1 hl
    cases heq
    exact (h l hl').singleLine_describe

/-! ## Arguments -/

/-- A number is refused with the place of the argument and what the literal is called. -/
theorem Expr.onOneLine_of_asInteger {e : Expr} {context : Text} (hcontext : SingleLine context)
    (he : ∀ l, .literal l = e → SingleLine l.describe) (h : e.asInteger context = .error p) :
    p.OnOneLine := by
  cases e with
  | literal l =>
    have hl := he l rfl
    cases l with
    | integer n => cases h
    | text s | bytes bs | reserved name =>
      cases h
      simp [hcontext, hl]
  | group items =>
    cases h
    simpa using hcontext

/-- So is a number among the members of a group. -/
theorem Expr.onOneLine_of_item {items : List Expr} {e : Expr} {context : Text}
    (hargument : (group items).Spellable) (he : e ∈ items) (hcontext : SingleLine context)
    (h : e.asInteger context = .error p) : p.OnOneLine := by
  refine onOneLine_of_asInteger hcontext (fun l hl => ?_) h
  subst hl
  exact hargument.singleLine_describe he

/-- A bound outside the format is refused on one line. -/
theorem NumberRange.onOneLine_of_outside {r : NumberRange} {n : Int}
    (h : r.outside n = .problem p) : p.OnOneLine := by
  have hformat := r.format.singleLine_name
  unfold outside at h
  split at h
  · cases h
    simp +decide [hformat]
  · cases h

/-- Bounds are refused on one line. -/
theorem NumberRange.onOneLine_of_between {r : NumberRange} {lower upper : Int}
    (h : r.between lower upper = .error (.problem p)) : p.OnOneLine := by
  unfold between at h
  split_ifs at h
  · exact onOneLine_of_outside (Except.error.inj h)
  · exact onOneLine_of_outside (Except.error.inj h)
  · cases h
    decide

/-- A range is refused on one line. -/
theorem NumberRange.onOneLine_of_ofArgument {r : NumberRange} (hargument : argument.Spellable)
    (h : r.ofArgument argument = .error (.problem p)) : p.OnOneLine := by
  obtain ⟨⟨⟩⟩ | ⟨items, item, q, rfl, hitem, hq, ⟨⟩⟩ | ⟨lower, upper, -, h⟩ :=
    ofArgument_eq_error h
  · decide
  · exact Expr.onOneLine_of_item hargument hitem (by decide) hq
  · exact onOneLine_of_between h

/-- A length is refused on one line. -/
theorem LengthBounds.onOneLine_of_ofArgument (hargument : argument.Spellable)
    (h : ofArgument argument = .error p) : p.OnOneLine := by
  have hcontext : SingleLine ("LEN(min max)" : Text) := by decide
  unfold ofArgument at h
  split at h
  · split at h
    · cases h
      decide
    · cases h
  · next l _ =>
    cases h
    have hl := hargument.singleLine_describe (l := l) (by simp [Expr.items])
    simp +decide [hl]
  · rcases Except.bind_eq_error.1 h with h | ⟨m, -, h⟩
    · exact Expr.onOneLine_of_item hargument (by simp) hcontext h
    · rcases Except.bind_eq_error.1 h with h | ⟨n, -, h⟩
      · exact Expr.onOneLine_of_item hargument (by simp) hcontext h
      · split_ifs at h
        · cases h
          decide
        · cases h
          decide
  · cases h
    decide

/-- A display format is refused on one line, unless it is the text of a literal. -/
theorem DisplayBase.onOneLine_of_ofArgument (hargument : argument.Spellable)
    (h : ofArgument argument = .error p) :
    p.OnOneLine ∨ ∃ name, argument = .literal (.text name) ∧ p = .unknownDisplayFormat name := by
  unfold ofArgument at h
  split at h
  · cases h
    exact .inl (by decide)
  · next name =>
    split at h
    · cases h
    · cases h
      exact .inr ⟨name, rfl, rfl⟩
  · next name =>
    split at h
    · cases h
    · cases h
      have hname := hargument.singleLine_describe (l := .reserved name) (by simp [Expr.items])
      exact .inl (by simpa [Literal.describe] using hname)
  · next l _ _ =>
    cases h
    have hl := hargument.singleLine_describe (l := l) (by simp [Expr.items])
    exact .inl (by simp +decide [hl])

/-- An attribute is refused on one line, unless it is a display format that a text names. -/
theorem FieldDefinition.onOneLine_of_update {d : FieldDefinition} (hattr : SingleLine attr)
    (hargument : argument.Spellable) (h : d.update attr argument = .error (.problem p)) :
    p.OnOneLine ∨ ∃ name, attr = "FORMAT" ∧ argument = .literal (.text name) ∧
        p = .unknownDisplayFormat name := by
  have hkind := d.singleLine_kindName
  cases updateFails_of_update h with
  | constant => exact .inl (by simpa using hkind)
  | unsupported => exact .inl (by simp [hattr, hkind])
  | textRange h | byteRange h => exact .inl (NumberRange.onOneLine_of_ofArgument hargument h)
  | format h =>
    rcases DisplayBase.onOneLine_of_ofArgument hargument h with h | ⟨name, hname, rfl⟩
    · exact .inl h
    · exact .inr ⟨name, rfl, hname, rfl⟩
  | length h => exact .inl (LengthBounds.onOneLine_of_ofArgument hargument h)

/-- A literal that no field holds is refused on one line. -/
theorem FieldDefinition.onOneLine_of_ofLiteral {l : Literal} (h : ofLiteral l = .error p) :
    p.OnOneLine := by
  cases l with
  | integer | text => cases h
  | bytes | reserved =>
    cases h
    decide

/-- A bound of the output is refused on one line. -/
theorem Generator.onOneLine_of_bound {parameter : Parameter}
    (h : bound parameter value = .error (.problem p)) : p.OnOneLine := by
  unfold bound at h
  split at h
  · split_ifs at h
    cases h
    cases parameter <;> decide
  · cases h
    cases parameter <;> decide

/-- A part of a terminator is refused on one line. -/
theorem Generator.onOneLine_of_terminatorBytes (hvalue : value.Spellable)
    (h : terminatorBytes value = .error (.problem p)) : p.OnOneLine := by
  unfold terminatorBytes at h
  split at h
  · cases h
    decide
  · split_ifs at h
    cases h
    decide
  · obtain ⟨_, -, ⟨⟩⟩ := Except.mapError_eq_error.1 h
  · cases h
  · next name =>
    split at h
    · cases h
    · cases h
      have hname := hvalue.singleLine_describe (l := .reserved name) (by simp [Expr.items])
      simpa +decide [Literal.describe] using hname

/-- A parameter is refused on one line. -/
theorem Generator.onOneLine_of_update {g : Generator} {name : Text} (hname : SingleLine name)
    (hvalue : value.Spellable) (h : g.update name value = .error (.problem p)) : p.OnOneLine := by
  unfold update at h
  split at h
  · exact onOneLine_of_bound (Except.map_eq_error.1 h)
  · exact onOneLine_of_bound (Except.map_eq_error.1 h)
  · exact onOneLine_of_terminatorBytes hvalue (Except.map_eq_error.1 h)
  · cases h
    simpa using hname

/-! ## Statements -/

namespace Evaluator

variable {ds : List DeclaredGroup} {e : Evaluator} {error : EnvironmentError}

/-- A group that is declared after one statement more was declared before, or the statement begins
it. -/
theorem name_of_mem_declare {d : DeclaredGroup} (h : d ∈ declare ds s) :
    (∃ d' ∈ ds, d'.1 = d.1) ∨ s = .startGroup d.1 := by
  -- A field goes to the last group, which keeps its name.
  have hlast (f : DeclaredGroup → DeclaredGroup) (hf : ∀ d, (f d).1 = d.1)
      (h : d ∈ ds.modifyLast f) : ∃ d' ∈ ds, d'.1 = d.1 := by
    rcases List.eq_nil_or_concat ds with rfl | ⟨front, last, rfl⟩
    · cases h
    · rw [List.concat_eq_append, List.modifyLast_concat] at h
      rcases List.mem_append.1 h with h | h
      · exact ⟨d, by simp [h], rfl⟩
      · obtain rfl := List.mem_singleton.1 h
        exact ⟨last, by simp, (hf last).symm⟩
  cases s with
  | startGroup name =>
    rcases List.mem_append.1 h with h | h
    · exact .inl ⟨d, h, rfl⟩
    · obtain rfl := List.mem_singleton.1 h
      exact .inr rfl
  | variableField kind name | constantField l name => exact .inl (hlast _ (by simp) h)
  | _ => exact .inl ⟨d, h, rfl⟩

/-- Every group that is declared is begun by a statement. -/
theorem startGroup_mem_of_declared {d : DeclaredGroup} (h : d ∈ declared ss) :
    .startGroup d.1 ∈ ss := by
  induction ss using List.reverseRecOn generalizing d with
  | nil => cases h
  | append_singleton ss s ih =>
    rw [declared, List.foldl_append] at h
    obtain ⟨d', hd', hname⟩ | rfl := name_of_mem_declare h
    · rw [← hname]
      exact List.mem_append_left _ (ih hd')
    · simp

/-- The current group has the name of a declared one. -/
theorem Consistent.current_name (he : Consistent ds e) {key : Text} {g : Group}
    (hcurrent : e.env.current = .ok (key, g)) : ∃ d ∈ ds, g.name = d.1 := by
  obtain ⟨-, hg⟩ := Environment.current_eq_ok.1 hcurrent
  obtain ⟨entry, hfind, rfl⟩ := Option.map_eq_some_iff.1 hg
  obtain ⟨d, hd, hyields⟩ := forall₂_of_mem_right he.groups (List.mem_of_find?_eq_some hfind)
  exact ⟨d, hd, hyields.name⟩

/-- A statement is refused on one line, unless it takes a text for a display format. -/
theorem Refuses.onOneLine (he : Consistent ds e) (hds : ∀ d ∈ ds, SingleLine d.1)
    (hs : s.Spellable) (h : e.Refuses s p) : p.OnOneLine ∨
      ∃ name, s = .updateField "FORMAT" (.literal (.text name)) ∧
        p = .unknownDisplayFormat name := by
  have hstage := e.stage.singleLine_name
  have hgroup {key : Text} {g : Group} (h : e.env.current = .ok (key, g)) :
      SingleLine g.name := by
    obtain ⟨d, hd, hname⟩ := he.current_name h
    rw [hname]
    exact hds d hd
  cases h with
  | noGroup => exact .inl (by decide)
  | unfinished => exact .inl (by simpa using hstage)
  | misplaced =>
    have hlabel := s.singleLine_label
    exact .inl (by simp [hlabel, hstage])
  | duplicateGroup =>
    have hname := IsName.singleLine (IsIdentifier.isName hs)
    exact .inl (by simpa using hname)
  | fieldType =>
    have hkind := singleLine_of_lower_mem (.inl hs.1)
    exact .inl (by simpa using hkind)
  | fieldLiteral hl => exact .inl (FieldDefinition.onOneLine_of_ofLiteral hl)
  | @duplicateField _ name _ _ hfield hcurrent =>
    have hname : SingleLine name := by
      rcases hfield with ⟨kind, rfl⟩ | ⟨l, rfl⟩
      · exact (hs.2 name rfl).isName.singleLine
      · exact (hs.2 name rfl).isName.singleLine
    exact .inl (by simp [hname, hgroup hcurrent])
  | unknownField hcurrent =>
    have hname := IsName.singleLine (IsIdentifier.isName hs)
    exact .inl (by simp [hname, hgroup hcurrent])
  | unselected =>
    have hattr := hs.1.isName.singleLine
    exact .inl (by simpa using hattr)
  | badAttribute hd =>
    obtain hp | ⟨name, rfl, rfl, rfl⟩ :=
      FieldDefinition.onOneLine_of_update hs.1.isName.singleLine hs.2 hd
    · exact .inl hp
    · exact .inr ⟨name, rfl, rfl⟩
  | badParameter hg =>
    obtain ⟨hname, l, rfl, hl⟩ := hs
    exact .inl (Generator.onOneLine_of_update hname.isName.singleLine (.one hl) hg)

/-- An evaluation fails on one line, unless a text is taken for a display format. -/
theorem onOneLine_of_evaluate (hss : ∀ s ∈ ss, s.Spellable)
    (h : evaluate ⟨ss⟩ = .error (.problem p)) : p.OnOneLine ∨
      ∃ name, .updateField "FORMAT" (.literal (.text name)) ∈ ss ∧
        p = .unknownDisplayFormat name := by
  obtain ⟨e, -, -, hp⟩ | ⟨front, s, rest, e, rfl, hrun, hstep⟩ := evaluate_eq_error.1 h
  · cases hp
    have hstage := e.stage.singleLine_name
    exact .inl (by simpa using hstage)
  · have he := (standing_of_run hrun).consistent
    have hds : ∀ d ∈ declared front, SingleLine d.1 := by
      intro d hd
      have hname : IsIdentifier d.1 :=
        hss _ (List.mem_append_left _ (startGroup_mem_of_declared hd))
      exact hname.isName.singleLine
    cases he.fails_of_step hstep with
    | refuses hrefuses =>
      obtain hp | ⟨name, rfl, rfl⟩ := hrefuses.onOneLine he hds (hss s (by simp))
      · exact .inl hp
      · exact .inr ⟨name, by simp, rfl⟩

end Evaluator

/-! ## Texts -/

/-- A text that is not read has too many digits in a number, or it is told of on one line why. -/
theorem onOneLine_of_readProgram {source : Text} {limit : Int} {e : StageError}
    (h : readProgram source limit = .error e) :
    (∃ n, e = .lexing n) ∨ ∃ e' : ParseError, e = .parsing e' ∧ e'.problem.OnOneLine := by
  unfold readProgram at h
  split at h
  · cases h
  · cases h
    exact .inl ⟨_, rfl⟩
  · next e' hparse =>
    cases h
    refine .inr ⟨e', rfl, ?_⟩
    unfold parseSource at hparse
    split at hparse
    · cases hparse
      exact (List.forall_mem_nil _ : ∀ text ∈ [], SingleLine text)
    · split at hparse
      · cases hparse
      · next tokens _ =>
        split at hparse
        · next hfail =>
          cases hparse
          obtain ⟨left, -, rfl⟩ := parse_eq_error hfail
          exact ParseError.onOneLine_atTokens left (some source)
        · cases hparse

/-- The failure of a text is that of its reading or that of the evaluation of its program. -/
theorem compile_eq_error {source : Text} {limit : Int} {e : StageError}
    (h : (compile source limit).1 = .error e) : readProgram source limit = .error e ∨
      ∃ (p : Program) (e' : EnvironmentError), p.ReadFrom source ∧ evaluate p = .error e' ∧
        e = .evaluation e' := by
  unfold compile at h
  split at h
  · next hread =>
    cases h
    exact .inl hread
  · next tokens p hread =>
    obtain ⟨-, hlex, hparse⟩ := readProgram_eq_ok.1 hread
    cases heval : evaluate p with
    | ok env =>
      rw [heval] at h
      cases h
    | error e' =>
      rw [heval] at h
      cases h
      exact .inr ⟨p, e', ⟨tokens, hlex, hparse⟩, heval, rfl⟩

/-- The failure of a text is told of on one line, unless the text names a display format by a text
literal with a line end that is no format. -/
theorem compile_line {source : Text} {limit : Int} {e : StageError} {r : Report} {d : Diagnostic}
    (h : (compile source limit).1 = .error e) (hr : e.report? = some r) (hd : r.diagnostic = some d)
    (colour : Bool) : ¬ SingleLine (d.format .line colour) ↔
      ∃ (p : Program) (name : Text), p.ReadFrom source ∧
        .updateField "FORMAT" (.literal (.text name)) ∈ p.statements ∧
        e = .evaluation (.problem (.unknownDisplayFormat name)) ∧ ¬ SingleLine name := by
  show ¬ SingleLine d.line ↔ _
  rcases compile_eq_error h with hread | ⟨⟨ss⟩, e', hp, heval, rfl⟩
  · obtain ⟨n, rfl⟩ | ⟨e', rfl, hline⟩ := onOneLine_of_readProgram hread
    · cases hr
    · cases hr
      cases hd
      refine iff_of_false (not_not_intro (Problem.singleLine_line.2 hline)) ?_
      rintro ⟨_, _, -, -, ⟨⟩, -⟩
  · cases e' with
    | danglingGroup | unwritable => cases hr
    | problem p =>
      cases hr
      cases hd
      rw [Problem.singleLine_line]
      constructor
      · intro hline
        obtain hp | ⟨name, hmem, rfl⟩ := Evaluator.onOneLine_of_evaluate hp.spellable heval
        · exact absurd hp hline
        · refine ⟨⟨ss⟩, name, hp, hmem, rfl, fun hname => hline ?_⟩
          simpa using hname
      · rintro ⟨_, name, -, -, ⟨⟩, hname⟩ hline
        exact hname (hline name (by simp))

/-- A text literal with two line ends in the place of a name. -/
def brokenName : Text :=
  "DEFINE \"x\r\ny\""

/-- The error of `brokenName`. -/
def brokenNameError : ParseError :=
  .atTokens [Word.tokenAt (.defineWord, .none) 0 6, Word.tokenAt (.text, .text "x\r\ny") 7 6,
    Token.endAt 13] (some brokenName)

/-- It is told of on one line. -/
theorem brokenName_line :
    ((compile brokenName).1 = .error (.parsing brokenNameError) ∧
      (StageError.parsing brokenNameError).report? = some (.ofParseError brokenNameError) ∧
      (Report.ofParseError brokenNameError).diagnostic =
        some brokenNameError.problem.diagnostic ∧
      SingleLine (brokenNameError.problem.diagnostic.format .line)) ∧
    (¬ SingleLine (brokenNameError.problem.diagnostic.format .line) ↔
      ∃ (p : Program) (name : Text), p.ReadFrom brokenName ∧
        .updateField "FORMAT" (.literal (.text name)) ∈ p.statements ∧
        StageError.parsing brokenNameError = .evaluation (.problem (.unknownDisplayFormat name)) ∧
          ¬ SingleLine name) := by
  have hcompile : (compile brokenName).1 = .error (.parsing brokenNameError) := by decide +kernel
  exact ⟨⟨hcompile, rfl, rfl, by decide +kernel⟩, compile_line hcompile rfl rfl false⟩

/-- A number whose display format is a text with a line end. -/
def brokenFormat : Text :=
  "DEFINE a u8 AS n -> FORMAT(\"x\ny\") GENERATE a"

/-- The one-line style tells of it on two lines. -/
theorem brokenFormat_line : ∃ r d,
    (compile brokenFormat).1 = .error (.evaluation (.problem (.unknownDisplayFormat "x\ny"))) ∧
    (StageError.evaluation (.problem (.unknownDisplayFormat "x\ny"))).report? = some r ∧
    r.diagnostic = some d ∧
    d.format .line = "INVALID_ATTRIBUTE: FORMAT(name): unknown display format (x\ny)" ∧
    ¬ SingleLine (d.format .line) :=
  ⟨_, _, by decide +kernel, rfl, rfl, by decide +kernel, by decide +kernel⟩

end ByteLayout
