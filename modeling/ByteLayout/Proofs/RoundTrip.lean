import ByteLayout.Proofs.Gathering
import ByteLayout.Proofs.Words

/-!
# Programs are read back from their text

A program that was read from a text holds spellable forms, since its tokens are well formed. The
forms that the statements are gathered into are spellable too, and the line of each is read as its
words, so the whole text is read as the statements it was written from.

`ReadFrom.write_roundTrip`: a program that was read from a text is written, and read back from what
is written.
-/

namespace ByteLayout

open Grammar Lexeme

variable {us : List Token} {ws vs : List Word} {t : Token}

/-! ## Spellable statements -/

/-- The names and literals of a statement are spellable. -/
def Statement.Spellable : Statement → Prop
  | startGroup name | startGenerator name | selectField name => IsIdentifier name
  | variableField kind name => Text.lower kind ∈ typeNames ∧ ∀ n ∈ name, IsIdentifier n
  | constantField literal name => literal.Spellable ∧ ∀ n ∈ name, IsIdentifier n
  | updateField attr argument => Clause.Spellable ⟨attr, argument⟩
  | setParameter name value => IsIdentifier name ∧ ∃ l, value = .literal l ∧ l.Spellable
  | startFieldsSection | run => True

/-- Clauses can be spelled if their statements can. -/
theorem Clause.forall_spellable (cs : List Clause) :
    (∀ s ∈ cs.map Clause.statement, s.Spellable) ↔ ∀ c ∈ cs, c.Spellable := by
  rw [List.forall_mem_map]
  rfl

/-- A form is spellable if it has its clauses and its statements are spellable. -/
theorem Form.spellable_iff (f : Form) :
    f.Spellable ↔ f.Complete ∧ ∀ s ∈ f.statements, s.Spellable := by
  cases f with
  | group name | generator name | field kind name | constant l name | fieldsSection
  | parameter name value => simp [Spellable, Complete, statements, Statement.Spellable]
  | fieldWith kind name clauses =>
    rw [statements, List.forall_mem_cons, List.forall_mem_cons, Clause.forall_spellable]
    constructor
    · rintro ⟨hkind, hname, hne, hclauses⟩
      exact ⟨hne, ⟨hkind, by rintro n ⟨⟩; exact hname⟩, hname, hclauses⟩
    · rintro ⟨hne, ⟨hkind, -⟩, hname, hclauses⟩
      exact ⟨hkind, hname, hne, hclauses⟩
  | update name clauses =>
    rw [statements, List.forall_mem_cons, Clause.forall_spellable]
    constructor
    · rintro ⟨hname, hne, hclauses⟩
      exact ⟨hne, hname, hclauses⟩
    · rintro ⟨hne, hname, hclauses⟩
      exact ⟨hname, hne, hclauses⟩

/-- Forms with the same statements as spellable ones are spellable if they have their clauses. -/
theorem Form.spellable_of_statements {fs gs : List Form} (hfs : ∀ f ∈ fs, f.Spellable)
    (hgs : ∀ g ∈ gs, g.Complete) (h : Program.ofForms gs = Program.ofForms fs) :
    ∀ g ∈ gs, g.Spellable := by
  have heq : gs.flatMap statements = fs.flatMap statements :=
    List.append_cancel_right (congrArg Program.statements h)
  intro g hg
  refine g.spellable_iff.2 ⟨hgs g hg, fun s hs => ?_⟩
  have hin : s ∈ fs.flatMap statements := by
    rw [← heq]
    exact List.mem_flatMap_of_mem hg hs
  obtain ⟨f, hf, hs⟩ := List.mem_flatMap.1 hin
  exact (f.spellable_iff.1 (hfs f hf)).2 s hs

/-! ## Forms of well formed tokens -/

/-- The text of a well-formed identifier is one. -/
theorem Token.Spells.identifier {name : Text} (h : t.Spells .identifier name)
    (ht : t.word.WellFormed) : IsIdentifier name := by
  rw [spells_iff.1 h] at ht
  exact ht

/-- The text of a well-formed type is one. -/
theorem Token.Spells.typeName {kind : Text} (h : t.Spells .typeName kind)
    (ht : t.word.WellFormed) : Text.lower kind ∈ typeNames := by
  rw [spells_iff.1 h] at ht
  exact ht

/-- The literal of a well-formed token can be spelled. -/
theorem Token.Denotes.spellable {l : Literal} (h : t.Denotes l) (ht : t.word.WellFormed) :
    l.Spellable := by
  rw [denotes_iff.1 h] at ht
  exact ht

namespace Grammar

/-- A name of well-formed tokens is an identifier. -/
theorem NameTokens.isIdentifier {name : Option Text} (h : NameTokens name us)
    (hus : ∀ t ∈ us, t.word.WellFormed) : ∀ n ∈ name, IsIdentifier n := by
  cases h with
  | none => simp
  | some ha ht =>
    rintro n ⟨⟩
    exact ht.identifier (hus _ (by simp))

/-- Arguments of well-formed tokens can be spelled. -/
theorem ArgumentTokens.spellable {e : Expr} (h : ArgumentTokens e us)
    (hus : ∀ t ∈ us, t.word.WellFormed) : e.Spellable := by
  cases h with
  | one h => exact .one (h.spellable (hus _ List.mem_cons_self))
  | many h hl =>
    refine .many ?_ hl
    clear hl
    induction h with
    | nil => simp
    | cons ht hts ih =>
      rw [List.forall_mem_cons] at hus ⊢
      exact ⟨ht.spellable hus.1, ih hus.2⟩

/-- A clause of well-formed tokens can be spelled. -/
theorem ClauseTokens.spellable {c : Clause} (h : ClauseTokens c us)
    (hus : ∀ t ∈ us, t.word.WellFormed) : c.Spellable := by
  cases h with
  | mk ht ho he hc =>
    rw [List.forall_mem_cons, List.forall_mem_cons, List.forall_mem_append] at hus
    exact ⟨ht.identifier hus.1, he.spellable hus.2.2.1⟩

/-- A row of well-formed tokens has clauses, all of which can be spelled. -/
theorem ClauseRow.spellable {cs : List Clause} (h : ClauseRow cs us)
    (hus : ∀ t ∈ us, t.word.WellFormed) : cs ≠ [] ∧ ∀ c ∈ cs, c.Spellable := by
  refine ⟨by cases h <;> exact List.cons_ne_nil _ _, ?_⟩
  induction h with
  | one h => simpa using h.spellable hus
  | cons h _ ih =>
    rw [List.forall_mem_append] at hus
    rw [List.forall_mem_cons]
    exact ⟨h.spellable hus.1, ih hus.2⟩
  | comma h _ _ ih =>
    rw [List.forall_mem_append, List.forall_mem_cons] at hus
    rw [List.forall_mem_cons]
    exact ⟨h.spellable hus.1, ih hus.2.2⟩

/-- So have clauses with a last comma. -/
theorem ClausesTokens.spellable {cs : List Clause} (h : ClausesTokens cs us)
    (hus : ∀ t ∈ us, t.word.WellFormed) : cs ≠ [] ∧ ∀ c ∈ cs, c.Spellable := by
  cases h with
  | plain h => exact h.spellable hus
  | trailing h _ =>
    rw [List.forall_mem_append] at hus
    exact h.spellable hus.1

/-- A form of well formed tokens is spellable. -/
theorem FormTokens.spellable {f : Form} (h : FormTokens f us)
    (hus : ∀ t ∈ us, t.word.WellFormed) : f.Spellable := by
  cases h with
  | group hd ht | generator hd ht | generatorWith hd ht => exact ht.identifier (hus _ (by simp))
  | fieldsSection hw => trivial
  | field ht hn =>
    rw [List.forall_mem_cons] at hus
    exact ⟨ht.typeName hus.1, hn.isIdentifier hus.2⟩
  | fieldWith ht hn hr hc =>
    rw [List.forall_mem_cons, List.forall_mem_append, List.forall_mem_cons] at hus
    exact ⟨ht.typeName hus.1, hn.isIdentifier hus.2.1 _ rfl, hc.spellable hus.2.2.2⟩
  | constant ht hn =>
    rw [List.forall_mem_cons] at hus
    exact ⟨ht.spellable hus.1, hn.isIdentifier hus.2⟩
  | update ht hr hc =>
    rw [List.forall_mem_cons, List.forall_mem_cons] at hus
    exact ⟨ht.identifier hus.1, hc.spellable hus.2.2⟩
  | parameter ht ha hv =>
    exact ⟨ht.identifier (hus _ (by simp)), _, rfl, hv.spellable (hus _ (by simp))⟩

end Grammar

/-! ## Tokens with the words of forms -/

/-- Tokens with the words of spellable forms decompose into these forms. -/
theorem decomposes_of_words {fs : List Form} (hfs : ∀ f ∈ fs, f.Spellable)
    (h : us.map Token.word = fs.flatMap Form.words) :
    ∃ pieces, Decomposes pieces us ∧ pieces.map (·.1) = fs := by
  have hwords : Decomposes (fs.map fun f => (f, f.words.map Word.token))
      ((fs.flatMap Form.words).map Word.token) := by
    refine ⟨List.forall_mem_map.2 fun f hf => formTokens_words (hfs f hf), ?_⟩
    rw [List.map_map, List.map_flatMap, List.flatMap_def]
    rfl
  obtain ⟨pieces, hpieces, hforms⟩ := hwords.of_words (by rw [h, map_word_token])
  refine ⟨pieces, hpieces, ?_⟩
  rw [hforms, List.map_map]
  exact List.map_id fs

/-! ## Programs and texts -/

/-- The text is read as the program. -/
def Program.ReadFrom (p : Program) (source : Text) : Prop :=
  ∃ tokens, lex source = .ok tokens ∧ parse tokens = .ok p

/-- Which program a text is read as can be computed. -/
theorem Program.readFrom_iff {p : Program} {source : Text} : p.ReadFrom source ↔
    (lex source).toOption.bind (fun tokens => (parse tokens).toOption) = some p := by
  constructor
  · rintro ⟨tokens, hlex, hparse⟩
    rw [hlex]
    show (parse tokens).toOption = some p
    rw [hparse]
    rfl
  · intro h
    cases hlex : lex source with
    | error e =>
      rw [hlex] at h
      cases h
    | ok tokens =>
      rw [hlex] at h
      cases hparse : parse tokens with
      | error e =>
        replace h : (parse tokens).toOption = some p := h
        rw [hparse] at h
        cases h
      | ok q =>
        replace h : (parse tokens).toOption = some p := h
        rw [hparse] at h
        cases h
        exact ⟨tokens, hlex, hparse⟩

/-- A text is read as one program only. -/
theorem Program.ReadFrom.unique {p q : Program} {source : Text} (hp : p.ReadFrom source)
    (hq : q.ReadFrom source) : q = p := by
  obtain ⟨tokens, hlex, hparse⟩ := hp
  obtain ⟨tokens', hlex', hparse'⟩ := hq
  rw [hlex] at hlex'
  cases hlex'
  rw [hparse] at hparse'
  cases hparse'
  rfl

/-- What is read from a text is made of spellable forms. -/
theorem Program.ReadFrom.forms {p : Program} {source : Text} (h : p.ReadFrom source) :
    ∃ fs, (∀ f ∈ fs, Form.Spellable f) ∧ p = .ofForms fs := by
  obtain ⟨tokens, hlex, hparse⟩ := h
  obtain ⟨ws, hws, htokens⟩ := lex_eq_ok hlex
  obtain ⟨pieces, us, e, rest, rfl, -, hd, rfl⟩ := decomposes_of_parse hparse
  have hall : ∀ t ∈ us, t.word.WellFormed := by
    intro t ht
    have hin : t.word ∈ ws ++ [Word.endOfInput] := by
      rw [← htokens]
      exact List.mem_map_of_mem (List.mem_append_left _ ht)
    rcases List.mem_append.1 hin with hin | hin
    · exact wellFormed_of_wordsOf hws _ hin
    · rw [List.mem_singleton.1 hin]
      exact Word.wellFormed_of_none
  refine ⟨pieces.map (·.1), ?_, rfl⟩
  intro f hf
  obtain ⟨piece, hin, rfl⟩ := List.mem_map.1 hf
  refine (hd.form piece hin).spellable fun t ht => hall t ?_
  rw [← hd.flatten]
  exact List.mem_flatten_of_mem (List.mem_map_of_mem hin) ht

/-- The statements of a text can be spelled. -/
theorem Program.ReadFrom.spellable {p : Program} {source : Text} (h : p.ReadFrom source) :
    ∀ s ∈ p.statements, s.Spellable := by
  obtain ⟨fs, hfs, rfl⟩ := h.forms
  intro s hs
  rcases List.mem_append.1 hs with hs | hs
  · obtain ⟨f, hf, hs⟩ := List.mem_flatMap.1 hs
    exact (f.spellable_iff.1 (hfs f hf)).2 s hs
  · obtain rfl := List.mem_singleton.1 hs
    trivial

/-- The text of the words of spellable forms is read as their program. -/
theorem Program.readFrom_of_reads {fs : List Form} {text : Text}
    (hfs : ∀ f ∈ fs, f.Spellable) (h : Reads text.toList (fs.flatMap Form.words) []) :
    (Program.ofForms fs).ReadFrom text := by
  have hwords : wordsOf text.toList = .ok (fs.flatMap Form.words) := by
    have hnil : wordsOf [] = .ok [] := by simp [wordsOf, lexemesOf, Except.map]
    unfold Reads at h
    rw [List.append_nil, hnil] at h
    simpa [Except.map] using h
  obtain ⟨tokens, hlex, htokens⟩ := lex_of_wordsOf hwords
  obtain ⟨us, es, rfl, hus, hes⟩ := List.map_eq_append_iff.1 htokens
  obtain ⟨e, es, rfl, he, hes⟩ := List.map_eq_cons_iff.1 hes
  obtain rfl := List.map_eq_nil_iff.1 hes
  obtain ⟨pieces, hd, rfl⟩ := decomposes_of_words hfs hus
  exact ⟨_, hlex, parse_of_decomposes none hd (Token.kind_of_word he)⟩

/-- The program of spellable forms is written, and what is written is read as it. -/
theorem Program.write_ofForms {fs : List Form} (h : ∀ f ∈ fs, f.Spellable) :
    ∃ text, (Program.ofForms fs).write = .ok text ∧ (Program.ofForms fs).ReadFrom text := by
  obtain ⟨gs, hgather, hprogram, hcomplete⟩ :=
    gather_ofForms fun f hf => (f.spellable_iff.1 (h f hf)).1
  have hgs := Form.spellable_of_statements h hcomplete hprogram
  obtain ⟨lines, hlines, hreads⟩ := Form.writeAll_reads hgs
  refine ⟨Text.join (lines.map (· ++ "\n")), ?_, ?_⟩
  · rw [Program.write, hgather, List.mapM_map]
    have hwrite : ((Except.bind · Form.write) ∘ Except.ok : Form → Except WriteError Text) =
        Form.write := rfl
    rw [hwrite, hlines]
    rfl
  · rw [← hprogram]
    exact readFrom_of_reads hgs hreads

/-- A program that was read from a text is written, and what is written is read as the program.
Programs that were read from texts and are written alike are the same, and what is read from the
written text is written as this text again. -/
theorem Program.ReadFrom.write_roundTrip {p : Program} {source : Text} (h : p.ReadFrom source) :
    ∃ text, p.write = .ok text ∧ p.ReadFrom text ∧
      (∀ (q : Program) (other : Text), q.ReadFrom other → q.write = .ok text → q = p) ∧
        ∀ q : Program, q.ReadFrom text → q.write = .ok text := by
  obtain ⟨fs, hfs, rfl⟩ := h.forms
  obtain ⟨text, htext, hread⟩ := write_ofForms hfs
  refine ⟨text, htext, hread, ?_, ?_⟩
  · intro q other hq hwrite
    obtain ⟨gs, hgs, rfl⟩ := hq.forms
    obtain ⟨text', htext', hread'⟩ := write_ofForms hgs
    rw [htext'] at hwrite
    cases hwrite
    exact hread.unique hread'
  · intro q hq
    rw [hread.unique hq]
    exact htext

/-- A text with a comment mark and a line end between quotation marks, a number that is cut to 64
bits, and a comma that ends the clauses before another field. -/
def crowdedSource : Text :=
  "u8 AS n->LEN(0 9223372036854775808)b(\"#\n\"),LF AS x n -> A(1)# done"

/-- The program of this text. -/
def crowdedProgram : Program :=
  ⟨[.variableField "u8" (some "n"), .selectField "n",
    .updateField "LEN" (.group [.literal (.integer 0), .literal (.integer (-9223372036854775808))]),
    .updateField "b" (.literal (.text "#\n")), .constantField (.reserved "LF") (some "x"),
    .selectField "n", .updateField "A" (.literal (.integer 1)), .run]⟩

/-- `crowdedProgram` is read back from what is written for it. -/
theorem crowdedProgram_roundTrip :
    crowdedProgram.ReadFrom crowdedSource ∧
      ∃ text, crowdedProgram.write = .ok text ∧ crowdedProgram.ReadFrom text := by
  have hread : crowdedProgram.ReadFrom crowdedSource := Program.readFrom_iff.2 (by decide +kernel)
  obtain ⟨text, htext, hback, -⟩ := hread.write_roundTrip
  exact ⟨hread, text, htext, hback⟩

end ByteLayout
