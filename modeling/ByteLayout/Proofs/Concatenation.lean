import ByteLayout.Proofs.Spacing

/-!
# Texts one after the other

Two texts with a line end between them are cut as each of them is: nothing that the first one holds
goes on into the second one, since a comment stops at the line end and a loosened text keeps its
words, and a text is cut alike from every offset on (`lex_append_line`). Forms do not reach into
each other either, so the program of the two texts is that of the first one without its end and then
that of the second one (`Program.readFrom_append`).
-/

namespace ByteLayout

open Grammar

variable {old more source : List CodePoint} {offset : Nat} {tokens us : List Token} {p q : Program}
  {a b : Text}

/-! ## Cuts -/

/-- A text with something after it that begins with a gap is loosened. -/
theorem Loosened.of_append {c : CodePoint} (h : opensGap c) :
    Loosened (old ++ c :: more) old := by
  have hloose : Loosened (c :: more) [] := .of_head (by simpa using h)
  simpa using hloose.append old

/-- A text goes on after a line end with the cut of what follows. -/
theorem Cut.append_line (h : Cut offset source tokens)
    (hclosed : ∀ t ∈ tokens, ¬ t.word.IsUnclosed) (hmore : Cut 0 more us) :
    Cut offset (source ++ scalar '\n' :: more)
      (tokens.dropLast ++ us.map (Token.moved (offset + source.length + 1))) := by
  induction h with
  | @last offset gap hgap =>
    have hline : GapBefore gap ([scalar '\n'] ++ more) := hgap.of_head (by simp [isLineEnd])
    have hgap : GapBefore (gap ++ [scalar '\n']) more := hline.append (.blank (by decide) .nil)
    have hcut := hmore.moved (offset + (gap ++ [scalar '\n']).length)
    rw [Nat.zero_add] at hcut
    simpa [Nat.add_assoc] using hcut.prepend hgap
  | @token offset gap text rest w tokens hgap htext hhead h ih =>
    rw [List.forall_mem_cons] at hclosed
    have hcut := ih hclosed.2
    have htext' : SpelledBefore text w (rest ++ scalar '\n' :: more) :=
      htext.loosened hclosed.1 (.of_append (by decide))
    have hgap' : GapBefore gap (text ++ (rest ++ scalar '\n' :: more)) := by
      obtain ⟨c, cs, rfl, -⟩ := htext.head
      exact hgap.of_head fun x hx => .inl hx
    have hne : tokens ≠ [] := by
      rintro rfl
      cases h
    have hsize : offset + (gap ++ (text ++ rest)).length =
        offset + gap.length + text.length + rest.length := by
      simp only [List.length_append, Nat.add_assoc]
    rw [List.dropLast_cons_of_ne_nil hne, List.append_assoc, List.append_assoc, List.cons_append,
      hsize]
    exact .token hgap' htext' hhead hcut

/-- The words of the cut after a line end are those of what follows. -/
theorem Cut.append (h : Cut offset source tokens) (hclosed : ∀ t ∈ tokens, ¬ t.word.IsUnclosed)
    (hmore : Cut 0 more us) :
    ∃ cut, Cut offset (source ++ scalar '\n' :: more) (tokens.dropLast ++ cut) ∧
      cut.map Token.word = us.map Token.word := by
  refine ⟨_, h.append_line hclosed hmore, ?_⟩
  rw [List.map_map]
  rfl

/-- Two texts with a line end between them have the tokens of the first one without its end, and
then those of the second one, moved behind the line end. -/
theorem lex_append_line (ha : lex a = .ok tokens) (hb : lex b = .ok us)
    (hclosed : ∀ t ∈ tokens, ¬ t.word.IsUnclosed) :
    ∃ front, tokens = front ++ [Token.endAt a.length] ∧ (∀ t ∈ front, t.kind ≠ .endOfInput) ∧
      lex (a ++ "\n" ++ b) = .ok (front ++ us.map (Token.moved (a.length + 1))) := by
  have hcut := (lex_iff_cut.1 ha).append_line hclosed (lex_iff_cut.1 hb)
  obtain ⟨front, rfl, hfront⟩ := (lex_iff_cut.1 ha).ends
  rw [Nat.zero_add, Text.length_toList] at hcut hclosed ⊢
  rw [List.dropLast_concat] at hcut
  refine ⟨front, rfl, hfront, lex_iff_cut.2 ?_⟩
  simpa using hcut

/-- The tokens of a name, a bracket and a minus sign before a comment of four characters. -/
def openSize : List Token :=
  [Word.tokenAt (.identifier, .text "x") 0 1, Word.tokenAt (.illegal, .text "[") 1 1,
    Word.tokenAt (.subtract, .none) 2 1, Token.endAt 7]

/-- The tokens of a digit, a bracket and a quotation mark. -/
def closeSize : List Token :=
  [Word.tokenAt (.integer, .integer 4) 0 1, Word.tokenAt (.illegal, .text "]") 1 1,
    Word.tokenAt (.illegal, .text "\"") 2 1, Token.endAt 3]

/-- The second text would go on with the size, and close the marks in the comment, if the line did
not end before it. -/
theorem lex_append_line_openSize :
    (lex "x[-# \"\x60" = .ok openSize ∧ lex "4]\"" = .ok closeSize ∧
      ∀ t ∈ openSize, ¬ t.word.IsUnclosed) ∧
    ∃ front, openSize = front ++ [Token.endAt 7] ∧ (∀ t ∈ front, t.kind ≠ .endOfInput) ∧
      lex ("x[-# \"\x60" ++ "\n" ++ "4]\"") = .ok (front ++ closeSize.map (Token.moved 8)) := by
  have hopen : lex "x[-# \"\x60" = .ok openSize := by decide +kernel
  have hclose : lex "4]\"" = .ok closeSize := by decide +kernel
  have hclosed : ∀ t ∈ openSize, ¬ t.word.IsUnclosed := by
    simp [openSize, Word.IsUnclosed, Word.tokenAt, Token.word, Token.endAt]
  exact ⟨⟨hopen, hclose, hclosed⟩, lex_append_line hopen hclose hclosed⟩

/-! ## Programs -/

/-- The tokens of a text that is read as a program are those of its forms and the end. -/
theorem Program.ReadFrom.decomposes {source : Text} (h : p.ReadFrom source) :
    ∃ pieces us n, lex source = .ok (us ++ [Token.endAt n]) ∧ Decomposes pieces us ∧
      p = .ofForms (pieces.map (·.1)) := by
  obtain ⟨tokens, hlex, hparse⟩ := h
  obtain ⟨us, rfl, hus⟩ := (lex_iff_cut.1 hlex).ends
  obtain ⟨pieces, vs, e, rest, htokens, he, hd, rfl⟩ := decomposes_of_parse hparse
  -- The forms take all tokens up to the first end, and there is only one.
  have heq : us = vs := by
    rcases List.append_eq_append_iff.1 htokens with ⟨more, rfl, hmore⟩ | ⟨more, rfl, hmore⟩
    · cases more with
      | nil => rw [List.append_nil]
      | cons t more => simp at hmore
    · cases more with
      | nil => rw [List.append_nil]
      | cons t more =>
        obtain rfl : e = t := (List.cons.inj hmore).1
        exact absurd he (hus e (by simp))
  subst heq
  exact ⟨pieces, us, _, hlex, hd, rfl⟩

/-- Two rows of forms in turn are a row of forms. -/
theorem Grammar.Decomposes.append {pieces others : List (Form × List Token)} {vs : List Token}
    (h : Decomposes pieces us) (hothers : Decomposes others vs) :
    Decomposes (pieces ++ others) (us ++ vs) where
  form := List.forall_mem_append.2 ⟨h.form, hothers.form⟩
  flatten := by rw [List.map_append, List.flatten_append, h.flatten, hothers.flatten]

/-- Programs compose as their texts do. -/
theorem Program.readFrom_append (ha : p.ReadFrom a) (hb : q.ReadFrom b) :
    ∃ ss, p.statements = ss ++ [.run] ∧
      (⟨ss ++ q.statements⟩ : Program).ReadFrom (a ++ "\n" ++ b) := by
  obtain ⟨pieces, us, n, hlexa, hus, rfl⟩ := ha.decomposes
  obtain ⟨others, vs, m, hlexb, hvs, rfl⟩ := hb.decomposes
  have hclosed : ∀ t ∈ us ++ [Token.endAt n], ¬ t.word.IsUnclosed := by
    have hkinds : ∀ kind ∈ formKinds, kind ≠ .illegal := by decide
    have hnot : ∀ {t : Token}, t.kind ≠ .illegal → ¬ t.word.IsUnclosed := by
      rintro t ht (h | h)
      · exact ht (Prod.mk.inj h).1
      · exact ht (Prod.mk.inj h).1
    rw [List.forall_mem_append, List.forall_mem_singleton]
    exact ⟨fun t ht => hnot (hkinds _ (hus.kind_mem t ht)), hnot (by simp [Token.endAt])⟩
  obtain ⟨cut, hcut, hwords⟩ := (lex_iff_cut.1 hlexa).append hclosed (lex_iff_cut.1 hlexb)
  rw [List.dropLast_concat] at hcut
  rw [List.map_append] at hwords
  obtain ⟨vs', es, rfl, hvs', hes⟩ := List.map_eq_append_iff.1 hwords
  obtain ⟨e, es, rfl, he, -⟩ := List.map_eq_cons_iff.1 hes
  obtain ⟨others', hothers, hforms⟩ := hvs.of_words hvs'
  have hlex : lex (a ++ "\n" ++ b) = .ok (us ++ (vs' ++ e :: es)) := by
    rw [lex_iff_cut]
    simpa using hcut
  have hparse : parse (us ++ vs' ++ e :: es) = .ok (.ofForms ((pieces ++ others').map (·.1))) :=
    parse_of_decomposes none (hus.append hothers) (Token.kind_of_word he)
  refine ⟨(pieces.map (·.1)).flatMap Form.statements, rfl, us ++ (vs' ++ e :: es), hlex, ?_⟩
  rw [← List.append_assoc, hparse, List.map_append, hforms]
  simp [Program.ofForms]

/-- A field with a clause that is followed by a comma. -/
def openClauses : Program :=
  ⟨[.variableField "u8" (some "n"), .selectField "n",
    .updateField "MIN" (.literal (.integer 1)), .run]⟩

/-- A parameter. -/
def lineFeed : Program :=
  ⟨[.setParameter "MAX" (.literal (.reserved "LF")), .run]⟩

/-- The first text ends inside a comment, and after a comma that no clause follows. -/
theorem openClauses_append :
    (openClauses.ReadFrom "u8 AS n -> MIN(1), # \"" ∧ lineFeed.ReadFrom "MAX = LF") ∧
      ∃ ss, openClauses.statements = ss ++ [.run] ∧
        (⟨ss ++ lineFeed.statements⟩ : Program).ReadFrom
          ("u8 AS n -> MIN(1), # \"" ++ "\n" ++ "MAX = LF") := by
  have hopen : openClauses.ReadFrom "u8 AS n -> MIN(1), # \"" :=
    Program.readFrom_iff.2 (by decide +kernel)
  have hline : lineFeed.ReadFrom "MAX = LF" := Program.readFrom_iff.2 (by decide +kernel)
  exact ⟨⟨hopen, hline⟩, Program.readFrom_append hopen hline⟩

end ByteLayout
