import ByteLayout.Proofs.Reading

/-!
# Programs as rows of forms

`parse_iff_decomposes`: the tokens before the end of the input are read as a program exactly when
they decompose into forms. They do so in one way only, and the program holds the statements of the
forms in order and one end.
-/

namespace ByteLayout

open Grammar

variable {ts us rest : List Token} {pieces : List (Form × List Token)}

/-! ## Kinds of tokens in forms -/

namespace Grammar

/-- The kinds of the tokens of forms. -/
def formKinds : List TokenKind :=
  [.asWord, .defineWord, .generateWord, .whereWord, .withWord, .leftParen, .rightParen, .comma,
    .assign, .rightArrow, .integer, .text, .bytes, .typeName, .reserved, .identifier]

/-- The tokens of a name are of kinds that forms are made of. -/
theorem NameTokens.kind_mem {n : Option Text} (h : NameTokens n us) :
    ∀ t ∈ us, t.kind ∈ formKinds := by
  cases h with
  | none => simp
  | some ha ht => simp [ha, ht.1, formKinds]

/-- So is that of a literal. -/
theorem denotes_kind_mem {t : Token} {l : Literal} (h : t.Denotes l) : t.kind ∈ formKinds := by
  cases h with
  | integer hk | bytes hk => simp [hk, formKinds]
  | text h | reserved h => simp [h.1, formKinds]

/-- So are those of arguments. -/
theorem ArgumentTokens.kind_mem {e : Expr} (h : ArgumentTokens e us) :
    ∀ t ∈ us, t.kind ∈ formKinds := by
  cases h with
  | one h => simpa using denotes_kind_mem h
  | many h hl =>
    clear hl
    induction h with
    | nil => simp
    | cons ht _ ih => exact List.forall_mem_cons.2 ⟨denotes_kind_mem ht, ih⟩

/-- So are those of a clause. -/
theorem ClauseTokens.kind_mem {c : Clause} (h : ClauseTokens c us) :
    ∀ t ∈ us, t.kind ∈ formKinds := by
  cases h with
  | mk ht ho he hc =>
    rw [List.forall_mem_cons, List.forall_mem_cons, List.forall_mem_append,
      List.forall_mem_singleton]
    exact ⟨by simp [ht.1, formKinds], by simp [ho, formKinds], he.kind_mem, by simp [hc, formKinds]⟩

/-- So are those of a row of clauses. -/
theorem ClauseRow.kind_mem {cs : List Clause} (h : ClauseRow cs us) :
    ∀ t ∈ us, t.kind ∈ formKinds := by
  induction h with
  | one h => exact h.kind_mem
  | cons h _ ih => exact List.forall_mem_append.2 ⟨h.kind_mem, ih⟩
  | comma h hk _ ih =>
    rw [List.forall_mem_append, List.forall_mem_cons]
    exact ⟨h.kind_mem, by simp [hk, formKinds], ih⟩

/-- So are those of clauses with a last comma. -/
theorem ClausesTokens.kind_mem {cs : List Clause} (h : ClausesTokens cs us) :
    ∀ t ∈ us, t.kind ∈ formKinds := by
  cases h with
  | plain h => exact h.kind_mem
  | trailing h hk =>
    rw [List.forall_mem_append, List.forall_mem_singleton]
    exact ⟨h.kind_mem, by simp [hk, formKinds]⟩

/-- So are those of a form. -/
theorem FormTokens.kind_mem {f : Form} (h : FormTokens f us) : ∀ t ∈ us, t.kind ∈ formKinds := by
  cases h with
  | group hd ht | generator hd ht => simp [hd, ht.1, formKinds]
  | generatorWith hg ht hw => simp [hg, ht.1, hw, formKinds]
  | field ht hn => exact List.forall_mem_cons.2 ⟨by simp [ht.1, formKinds], hn.kind_mem⟩
  | fieldWith ht hn hr hc =>
    rw [List.forall_mem_cons, List.forall_mem_append, List.forall_mem_cons]
    exact ⟨by simp [ht.1, formKinds], hn.kind_mem, by simp [hr, formKinds], hc.kind_mem⟩
  | constant ht hn => exact List.forall_mem_cons.2 ⟨denotes_kind_mem ht, hn.kind_mem⟩
  | fieldsSection hw => simp [hw, formKinds]
  | update ht hr hc =>
    rw [List.forall_mem_cons, List.forall_mem_cons]
    exact ⟨by simp [ht.1, formKinds], by simp [hr, formKinds], hc.kind_mem⟩
  | parameter ht ha hv =>
    rw [List.forall_mem_cons, List.forall_mem_cons, List.forall_mem_singleton]
    exact ⟨by simp [ht.1, formKinds], by simp [ha, formKinds], denotes_kind_mem hv⟩

/-- No token of a form ends the input. -/
theorem FormTokens.kind_ne {f : Form} (h : FormTokens f us) : ∀ t ∈ us, t.kind ≠ .endOfInput := by
  have hkinds : ∀ kind ∈ formKinds, kind ≠ .endOfInput := by decide
  exact fun t ht => hkinds _ (h.kind_mem t ht)

/-- So are all tokens that are decomposed. -/
theorem Decomposes.kind_mem (h : Decomposes pieces us) : ∀ t ∈ us, t.kind ∈ formKinds := by
  intro t ht
  rw [← h.flatten] at ht
  obtain ⟨ts, hts, ht⟩ := List.mem_flatten.1 ht
  obtain ⟨piece, hpiece, rfl⟩ := List.mem_map.1 hts
  exact (h.form piece hpiece).kind_mem t ht

/-- The end of the input is part of no form. -/
theorem Decomposes.kind_ne (h : Decomposes pieces us) : ∀ t ∈ us, t.kind ≠ .endOfInput := by
  have hkinds : ∀ kind ∈ formKinds, kind ≠ .endOfInput := by decide
  exact fun t ht => hkinds _ (h.kind_mem t ht)

/-- A form takes at least one token. -/
theorem FormTokens.ne_nil {f : Form} (h : FormTokens f us) : us ≠ [] := by
  cases h <;> exact List.cons_ne_nil _ _

end Grammar

/-! ## Rows of forms -/

/-- Forms followed by the end of the input have no part in a form before them. -/
theorem Reader.Boundary.of_forms {e : Token} (h : ∀ piece ∈ pieces, FormTokens piece.1 piece.2)
    (he : e.kind = .endOfInput) : Boundary ((pieces.map (·.2)).flatten ++ e :: rest) := by
  cases pieces with
  | nil => apply Boundary.of_head <;> simp [he]
  | cons piece pieces =>
    rw [List.map_cons, List.flatten_cons, List.append_assoc]
    exact .of_form (h piece List.mem_cons_self)

/-- Forms are read up to the end of the input, one after the other. -/
theorem Reader.formsFrom_complete {e : Token}
    (h : ∀ piece ∈ pieces, FormTokens piece.1 piece.2) (he : e.kind = .endOfInput)
    (read : List Form) : formsFrom read ((pieces.map (·.2)).flatten ++ e :: rest) =
      .ok (read.reverse ++ pieces.map (·.1)) := by
  induction pieces generalizing read with
  | nil =>
    rw [List.map_nil, List.flatten_nil, List.nil_append, formsFrom, if_pos he]
    simp
  | cons piece pieces ih =>
    obtain ⟨f, us⟩ := piece
    have hf : FormTokens f us := h (f, us) List.mem_cons_self
    have hpieces : ∀ piece ∈ pieces, FormTokens piece.1 piece.2 :=
      fun piece hp => h piece (List.mem_cons_of_mem _ hp)
    have hbound : Boundary ((pieces.map (·.2)).flatten ++ e :: rest) := .of_forms hpieces he
    have hform := form?_complete hf hbound
    obtain ⟨t, us', rfl⟩ := List.exists_cons_of_ne_nil hf.ne_nil
    have ht : t.kind ≠ .endOfInput := hf.kind_ne t List.mem_cons_self
    simp only [List.map_cons, List.flatten_cons, List.append_assoc, List.cons_append] at hform ⊢
    rw [formsFrom, if_neg ht]
    split
    · next hnone =>
      rw [hform] at hnone
      cases hnone
    · next hsome =>
      rw [hform] at hsome
      cases hsome
      rw [ih hpieces]
      simp

/-- What is read as forms are their tokens, and then the end of the input. -/
theorem Reader.formsFrom_sound {read fs : List Form} (h : formsFrom read ts = .ok fs) :
    ∃ (pieces : List (Form × List Token)) (e : Token) (rest : List Token),
      ts = (pieces.map (·.2)).flatten ++ e :: rest ∧ e.kind = .endOfInput ∧
        (∀ piece ∈ pieces, FormTokens piece.1 piece.2) ∧ fs = read.reverse ++ pieces.map (·.1) := by
  fun_induction formsFrom read ts with
  | case1 => cases h
  | case2 read t rest he =>
    cases h
    exact ⟨[], t, rest, rfl, he, by simp, by simp⟩
  | case3 => cases h
  | case4 read t rest _ f left hform ih =>
    obtain ⟨pieces, e, after, rfl, he, hp, rfl⟩ := ih h
    obtain ⟨us, hus, hf⟩ := form?_sound hform
    refine ⟨(f, us) :: pieces, e, after, by simpa using hus, he, ?_, by simp⟩
    intro piece hin
    rcases List.mem_cons.1 hin with rfl | hin
    · exact hf
    · exact hp piece hin

/-- Where reading forms fails, what is before are forms, and there is neither a form nor the end. -/
theorem Reader.formsFrom_error {read : List Form} {left : List Token}
    (h : formsFrom read ts = .error left) : ∃ pieces us, ts = us ++ left ∧ Decomposes pieces us ∧
      form? left = none ∧ ∀ t ∈ left.head?, t.kind ≠ .endOfInput := by
  fun_induction formsFrom read ts with
  | case1 =>
    cases h
    exact ⟨[], [], rfl, ⟨by simp, rfl⟩, rfl, by simp⟩
  | case2 => cases h
  | case3 read t rest ht hform =>
    cases h
    exact ⟨[], [], rfl, ⟨by simp, rfl⟩, hform, by simpa using ht⟩
  | case4 read t rest _ f left' hform ih =>
    obtain ⟨pieces, us, rfl, hd, hleft⟩ := ih h
    obtain ⟨vs, hvs, hf⟩ := form?_sound hform
    refine ⟨(f, vs) :: pieces, vs ++ us, by rw [hvs, List.append_assoc], ⟨?_, ?_⟩, hleft⟩
    · exact List.forall_mem_cons.2 ⟨hf, hd.form⟩
    · rw [List.map_cons, List.flatten_cons, hd.flatten]

/-- A row of tokens decomposes into forms in at most one way. -/
theorem Grammar.Decomposes.unique {others : List (Form × List Token)}
    (h : Decomposes pieces ts) (h' : Decomposes others ts) : others = pieces := by
  -- Any token that ends the input serves to bound the last form.
  let e : Token := { kind := .endOfInput }
  induction pieces generalizing others ts with
  | nil =>
    cases others with
    | nil => rfl
    | cons other others =>
      have hne := (h'.form other List.mem_cons_self).ne_nil
      have := h'.flatten.trans h.flatten.symm
      simp_all
  | cons piece pieces ih =>
    obtain ⟨f, us⟩ := piece
    have hf : FormTokens f us := h.form (f, us) List.mem_cons_self
    have hpieces : ∀ piece ∈ pieces, FormTokens piece.1 piece.2 :=
      fun piece hp => h.form piece (List.mem_cons_of_mem _ hp)
    cases others with
    | nil =>
      have := hf.ne_nil
      have := h'.flatten.trans h.flatten.symm
      simp_all
    | cons other others =>
      obtain ⟨g, vs⟩ := other
      have hg : FormTokens g vs := h'.form (g, vs) List.mem_cons_self
      have hothers : ∀ piece ∈ others, FormTokens piece.1 piece.2 :=
        fun piece hp => h'.form piece (List.mem_cons_of_mem _ hp)
      have hbound : Reader.Boundary ((pieces.map (·.2)).flatten ++ [e]) := .of_forms hpieces rfl
      have hbound' : Reader.Boundary ((others.map (·.2)).flatten ++ [e]) := .of_forms hothers rfl
      have hleft := Reader.form?_complete hf hbound
      have hright := Reader.form?_complete hg hbound'
      have heq : us ++ (pieces.map (·.2)).flatten = vs ++ (others.map (·.2)).flatten :=
        h.flatten.trans h'.flatten.symm
      rw [← List.append_assoc, heq, List.append_assoc, hright] at hleft
      obtain ⟨rfl, hrest⟩ : g = f ∧
          (others.map (·.2)).flatten = (pieces.map (·.2)).flatten := by
        simpa using hleft
      rw [hrest] at heq
      obtain rfl := List.append_cancel_right heq
      rw [ih ⟨hpieces, rfl⟩ ⟨hothers, hrest⟩]

/-- A form stands for its statements. -/
theorem Grammar.expands_statements (f : Form) : Expands f f.statements := by
  cases f <;> constructor

/-- No form ends the program. -/
theorem Grammar.Expands.run_notMem {f : Form} {ss : List Statement} (h : Expands f ss) :
    .run ∉ ss := by
  cases h <;> simp

/-- The forms of some pieces, each with the statements that it stands for. -/
theorem Grammar.forall₂_expands (fs : List Form) :
    List.Forall₂ Expands fs (fs.map Form.statements) := by
  rw [List.forall₂_map_right_iff, List.forall₂_same]
  exact fun f _ => expands_statements f

/-! ## Programs -/

/-- Forms before the end of the input are read as their program, whatever follows it. -/
theorem parse_of_decomposes {e : Token} (source : Option Text) (h : Decomposes pieces ts)
    (he : e.kind = .endOfInput) :
    parse (ts ++ e :: rest) source = .ok (.ofForms (pieces.map (·.1))) := by
  have hforms : Reader.formsFrom [] ((pieces.map (·.2)).flatten ++ e :: rest) =
      .ok ([].reverse ++ pieces.map (·.1)) := Reader.formsFrom_complete h.form he []
  rw [h.flatten] at hforms
  simp [parse, hforms]

/-- What is read as a program decomposes into forms up to the first end of the input. -/
theorem decomposes_of_parse {source : Option Text} {p : Program}
    (h : parse ts source = .ok p) : ∃ pieces us e rest, ts = us ++ e :: rest ∧
      e.kind = .endOfInput ∧ Decomposes pieces us ∧ p = .ofForms (pieces.map (·.1)) := by
  unfold parse at h
  split at h
  · next fs hfs =>
    obtain ⟨pieces, e, rest, rfl, he, hp, rfl⟩ := Reader.formsFrom_sound hfs
    cases h
    exact ⟨pieces, _, e, rest, rfl, he, ⟨hp, rfl⟩, rfl⟩
  · cases h

/-- Tokens that are no program are refused at the place at which reading forms fails. -/
theorem parse_eq_error {source : Option Text} {e : ParseError}
    (h : parse ts source = .error e) :
    ∃ left, Reader.formsFrom [] ts = .error left ∧ e = .atTokens left source := by
  unfold parse at h
  split at h
  · cases h
  · next left hleft =>
    cases h
    exact ⟨left, hleft, rfl⟩

/-- Tokens that hold no end of the input are read as a program before one exactly when they
decompose into forms. They decompose in one way only, and the program holds the statements that the
forms stand for, in order, and one end. -/
theorem parse_iff_decomposes {w : List Token} {e : Token} (source : Option Text)
    (hw : ∀ t ∈ w, t.kind ≠ .endOfInput) (he : e.kind = .endOfInput) :
    ((∃ p, parse (w ++ [e]) source = .ok p) ↔ ∃ pieces, Decomposes pieces w) ∧
      ∀ pieces, Decomposes pieces w →
        (∀ others, Decomposes others w → others = pieces) ∧
          ∃ sss, List.Forall₂ Expands (pieces.map (·.1)) sss ∧
            parse (w ++ [e]) source = .ok ⟨sss.flatten ++ [.run]⟩ ∧ .run ∉ sss.flatten := by
  refine ⟨⟨?_, ?_⟩, fun pieces h => ⟨fun others h' => h.unique h', ?_⟩⟩
  · rintro ⟨p, hp⟩
    obtain ⟨pieces, us, e', rest, heq, he', hd, -⟩ := decomposes_of_parse hp
    -- The end that the reader stopped at is the one behind `w`.
    rcases List.append_eq_append_iff.1 heq with ⟨as, rfl, hrest⟩ | ⟨bs, rfl, hrest⟩
    · cases as with
      | nil => exact ⟨pieces, by simpa using hd⟩
      | cons a as => simp at hrest
    · cases bs with
      | nil => exact ⟨pieces, by simpa using hd⟩
      | cons b bs =>
        obtain ⟨rfl, -⟩ := List.cons.inj hrest
        exact absurd he' (hw _ (List.mem_append_right _ List.mem_cons_self))
  · rintro ⟨pieces, h⟩
    exact ⟨_, parse_of_decomposes source h he⟩
  · refine ⟨_, forall₂_expands _, ?_, ?_⟩
    · rw [parse_of_decomposes source h he, Program.ofForms, List.flatMap_def]
    · intro hrun
      obtain ⟨ss, hss, hin⟩ := List.mem_flatten.1 hrun
      obtain ⟨f, -, rfl⟩ := List.mem_map.1 hss
      exact (expands_statements f).run_notMem hin

/-- The tokens of `u8 AS n -> A(0 7) B("hex"), T = LF`, where the comma ends the clauses. -/
def clausesThenParameter : List Token :=
  [{ kind := .typeName, value := .text "u8" }, { kind := .asWord },
    { kind := .identifier, value := .text "n" }, { kind := .rightArrow },
    { kind := .identifier, value := .text "A" }, { kind := .leftParen },
    { kind := .integer, value := .integer 0 }, { kind := .integer, value := .integer 7 },
    { kind := .rightParen }, { kind := .identifier, value := .text "B" }, { kind := .leftParen },
    { kind := .text, value := .text "hex" }, { kind := .rightParen }, { kind := .comma },
    { kind := .identifier, value := .text "T" }, { kind := .assign },
    { kind := .reserved, value := .text "LF" }]

/-- The statements of these tokens. -/
def clausesThenParameterStatements : List Statement :=
  [.variableField "u8" (some "n"), .selectField "n",
    .updateField "A" (.group [.literal (.integer 0), .literal (.integer 7)]),
    .updateField "B" (.literal (.text "hex")), .setParameter "T" (.literal (.reserved "LF")), .run]

/-- Behind clauses a parameter is read, and the program ends. -/
theorem parse_clausesThenParameter :
    (∀ t ∈ clausesThenParameter, t.kind ≠ .endOfInput) ∧
      parse (clausesThenParameter ++ [{ kind := .endOfInput }]) =
        .ok ⟨clausesThenParameterStatements⟩ ∧
      ∃ pieces, Decomposes pieces clausesThenParameter ∧
        ∀ others, Decomposes others clausesThenParameter → others = pieces := by
  have hw : ∀ t ∈ clausesThenParameter, t.kind ≠ .endOfInput := by decide
  have hp : parse (clausesThenParameter ++ [{ kind := .endOfInput }]) =
      .ok ⟨clausesThenParameterStatements⟩ := by decide +kernel
  obtain ⟨hiff, hall⟩ := parse_iff_decomposes (e := { kind := .endOfInput }) none hw rfl
  obtain ⟨pieces, hd⟩ := hiff.1 ⟨_, hp⟩
  exact ⟨hw, hp, pieces, hd, (hall pieces hd).1⟩

end ByteLayout
