import ByteLayout.Proofs.Decomposition
import ByteLayout.Proofs.Places
import ByteLayout.Proofs.Writing

/-!
# The grammar sees words only

Whether tokens are those of a form depends on their words and not on where they stand: every
relation of the grammar holds of all tokens with the same words, and so `parse` reads the same
program. The words of a spellable form are those of some of its tokens (`formTokens_words`), so all
tokens with these words are.
-/

namespace ByteLayout

open Grammar

variable {us vs : List Token} {t u : Token}

/-! ## Single tokens -/

/-- Whether a token spells a text is a matter of its word. -/
theorem Token.spells_iff {kind : TokenKind} {s : Text} :
    t.Spells kind s ↔ t.word = (kind, .text s) := by
  simp [Spells, word]

/-- Whether a token denotes a literal is a matter of its word. -/
theorem Token.denotes_iff {l : Literal} : t.Denotes l ↔ t.word = l.word := by
  constructor
  · intro h
    cases h with
    | integer hk hv | bytes hk hv => simp [word, Literal.word, hk, hv]
    | text h | reserved h => exact spells_iff.1 h
  · intro h
    cases l with
    | integer n =>
      obtain ⟨hk, hv⟩ := Prod.mk.inj h
      exact .integer hk hv
    | bytes bs =>
      obtain ⟨hk, hv⟩ := Prod.mk.inj h
      exact .bytes hk hv
    | text s => exact .text (spells_iff.2 h)
    | reserved name => exact .reserved (spells_iff.2 h)

/-- A word has a kind. -/
theorem Token.kind_of_word {kind : TokenKind} (h : t.word = (kind, .none)) : t.kind = kind :=
  (Prod.mk.inj h).1

/-- Tokens of one word spell the same text. -/
theorem Token.Spells.of_word {kind : TokenKind} {s : Text} (h : t.Spells kind s)
    (hu : u.word = t.word) : u.Spells kind s :=
  spells_iff.2 (hu.trans (spells_iff.1 h))

/-- Tokens of one word denote the same literal. -/
theorem Token.Denotes.of_word {l : Literal} (h : t.Denotes l) (hu : u.word = t.word) :
    u.Denotes l :=
  denotes_iff.2 (hu.trans (denotes_iff.1 h))

/-! ## Forms -/

namespace Grammar

/-- Tokens of the same words are the same name. -/
theorem NameTokens.of_words {name : Option Text} (h : NameTokens name us)
    (hvs : vs.map Token.word = us.map Token.word) : NameTokens name vs := by
  cases h with
  | none =>
    obtain rfl := List.map_eq_nil_iff.1 hvs
    exact .none
  | some ha ht =>
    obtain ⟨a', vs, rfl, ha', hvs⟩ := List.map_eq_cons_iff.1 hvs
    obtain ⟨t', vs, rfl, ht', hvs⟩ := List.map_eq_cons_iff.1 hvs
    obtain rfl := List.map_eq_nil_iff.1 hvs
    exact .some ((Token.kind_eq_of_word ha').trans ha) (ht.of_word ht')

/-- Tokens of the same words denote the same literals. -/
theorem forall₂_denotes_of_words {ls : List Literal} (h : List.Forall₂ Token.Denotes us ls)
    (hvs : vs.map Token.word = us.map Token.word) : List.Forall₂ Token.Denotes vs ls := by
  induction h generalizing vs with
  | nil =>
    obtain rfl := List.map_eq_nil_iff.1 hvs
    exact .nil
  | cons ht _ ih =>
    obtain ⟨t', vs, rfl, ht', hvs⟩ := List.map_eq_cons_iff.1 hvs
    exact .cons (ht.of_word ht') (ih hvs)

/-- Tokens of the same words are the same arguments. -/
theorem ArgumentTokens.of_words {e : Expr} (h : ArgumentTokens e us)
    (hvs : vs.map Token.word = us.map Token.word) : ArgumentTokens e vs := by
  obtain ⟨l, ls, hls, rfl⟩ := Reader.argumentTokens_iff.1 h
  exact Reader.argumentTokens_iff.2 ⟨l, ls, forall₂_denotes_of_words hls hvs, rfl⟩

/-- Tokens of the same words are the same clause. -/
theorem ClauseTokens.of_words {c : Clause} (h : ClauseTokens c us)
    (hvs : vs.map Token.word = us.map Token.word) : ClauseTokens c vs := by
  cases h with
  | mk ht ho he hc =>
    rw [List.map_cons, List.map_cons, List.map_append] at hvs
    obtain ⟨t', vs, rfl, ht', hvs⟩ := List.map_eq_cons_iff.1 hvs
    obtain ⟨o', vs, rfl, ho', hvs⟩ := List.map_eq_cons_iff.1 hvs
    obtain ⟨ts', vs, rfl, hts', hvs⟩ := List.map_eq_append_iff.1 hvs
    obtain ⟨c', vs, rfl, hc', hvs⟩ := List.map_eq_cons_iff.1 hvs
    obtain rfl := List.map_eq_nil_iff.1 hvs
    exact .mk (ht.of_word ht') ((Token.kind_eq_of_word ho').trans ho) (he.of_words hts')
      ((Token.kind_eq_of_word hc').trans hc)

/-- Tokens of the same words are the same row of clauses. -/
theorem ClauseRow.of_words {cs : List Clause} (h : ClauseRow cs us)
    (hvs : vs.map Token.word = us.map Token.word) : ClauseRow cs vs := by
  induction h generalizing vs with
  | one h => exact .one (h.of_words hvs)
  | cons h _ ih =>
    rw [List.map_append] at hvs
    obtain ⟨ts', vs, rfl, hts', hvs⟩ := List.map_eq_append_iff.1 hvs
    exact .cons (h.of_words hts') (ih hvs)
  | comma h hk _ ih =>
    rw [List.map_append, List.map_cons] at hvs
    obtain ⟨ts', vs, rfl, hts', hvs⟩ := List.map_eq_append_iff.1 hvs
    obtain ⟨k', vs, rfl, hk', hvs⟩ := List.map_eq_cons_iff.1 hvs
    exact .comma (h.of_words hts') ((Token.kind_eq_of_word hk').trans hk) (ih hvs)

/-- Tokens of the same words are the same clauses. -/
theorem ClausesTokens.of_words {cs : List Clause} (h : ClausesTokens cs us)
    (hvs : vs.map Token.word = us.map Token.word) : ClausesTokens cs vs := by
  cases h with
  | plain h => exact .plain (h.of_words hvs)
  | trailing h hk =>
    rw [List.map_append] at hvs
    obtain ⟨ts', vs, rfl, hts', hvs⟩ := List.map_eq_append_iff.1 hvs
    obtain ⟨k', vs, rfl, hk', hvs⟩ := List.map_eq_cons_iff.1 hvs
    obtain rfl := List.map_eq_nil_iff.1 hvs
    exact .trailing (h.of_words hts') ((Token.kind_eq_of_word hk').trans hk)

/-- Tokens with the words of a form's tokens are tokens of the form. -/
theorem FormTokens.of_words {f : Form} (h : FormTokens f us)
    (hvs : vs.map Token.word = us.map Token.word) : FormTokens f vs := by
  cases h with
  | group hd ht =>
    obtain ⟨d', vs, rfl, hd', hvs⟩ := List.map_eq_cons_iff.1 hvs
    obtain ⟨t', vs, rfl, ht', hvs⟩ := List.map_eq_cons_iff.1 hvs
    obtain rfl := List.map_eq_nil_iff.1 hvs
    exact .group ((Token.kind_eq_of_word hd').trans hd) (ht.of_word ht')
  | generator hg ht =>
    obtain ⟨g', vs, rfl, hg', hvs⟩ := List.map_eq_cons_iff.1 hvs
    obtain ⟨t', vs, rfl, ht', hvs⟩ := List.map_eq_cons_iff.1 hvs
    obtain rfl := List.map_eq_nil_iff.1 hvs
    exact .generator ((Token.kind_eq_of_word hg').trans hg) (ht.of_word ht')
  | generatorWith hg ht hw =>
    obtain ⟨g', vs, rfl, hg', hvs⟩ := List.map_eq_cons_iff.1 hvs
    obtain ⟨t', vs, rfl, ht', hvs⟩ := List.map_eq_cons_iff.1 hvs
    obtain ⟨w', vs, rfl, hw', hvs⟩ := List.map_eq_cons_iff.1 hvs
    obtain rfl := List.map_eq_nil_iff.1 hvs
    exact .generatorWith ((Token.kind_eq_of_word hg').trans hg) (ht.of_word ht')
      ((Token.kind_eq_of_word hw').trans hw)
  | field ht hn =>
    obtain ⟨t', vs, rfl, ht', hvs⟩ := List.map_eq_cons_iff.1 hvs
    exact .field (ht.of_word ht') (hn.of_words hvs)
  | fieldWith ht hn hr hc =>
    rw [List.map_cons, List.map_append, List.map_cons] at hvs
    obtain ⟨t', vs, rfl, ht', hvs⟩ := List.map_eq_cons_iff.1 hvs
    obtain ⟨ts', vs, rfl, hts', hvs⟩ := List.map_eq_append_iff.1 hvs
    obtain ⟨r', vs, rfl, hr', hvs⟩ := List.map_eq_cons_iff.1 hvs
    exact .fieldWith (ht.of_word ht') (hn.of_words hts') ((Token.kind_eq_of_word hr').trans hr)
      (hc.of_words hvs)
  | constant ht hn =>
    obtain ⟨t', vs, rfl, ht', hvs⟩ := List.map_eq_cons_iff.1 hvs
    exact .constant (ht.of_word ht') (hn.of_words hvs)
  | fieldsSection hw =>
    obtain ⟨w', vs, rfl, hw', hvs⟩ := List.map_eq_cons_iff.1 hvs
    obtain rfl := List.map_eq_nil_iff.1 hvs
    exact .fieldsSection ((Token.kind_eq_of_word hw').trans hw)
  | update ht hr hc =>
    obtain ⟨t', vs, rfl, ht', hvs⟩ := List.map_eq_cons_iff.1 hvs
    obtain ⟨r', vs, rfl, hr', hvs⟩ := List.map_eq_cons_iff.1 hvs
    exact .update (ht.of_word ht') ((Token.kind_eq_of_word hr').trans hr) (hc.of_words hvs)
  | parameter ht ha hv =>
    obtain ⟨t', vs, rfl, ht', hvs⟩ := List.map_eq_cons_iff.1 hvs
    obtain ⟨a', vs, rfl, ha', hvs⟩ := List.map_eq_cons_iff.1 hvs
    obtain ⟨v', vs, rfl, hv', hvs⟩ := List.map_eq_cons_iff.1 hvs
    obtain rfl := List.map_eq_nil_iff.1 hvs
    exact .parameter (ht.of_word ht') ((Token.kind_eq_of_word ha').trans ha) (hv.of_word hv')

/-- Tokens with the same words decompose into the same forms. -/
theorem Decomposes.of_words {pieces : List (Form × List Token)} (h : Decomposes pieces us)
    (hvs : vs.map Token.word = us.map Token.word) :
    ∃ others, Decomposes others vs ∧ others.map (·.1) = pieces.map (·.1) := by
  induction pieces generalizing us vs with
  | nil =>
    obtain rfl : [] = us := h.flatten
    obtain rfl := List.map_eq_nil_iff.1 hvs
    exact ⟨[], h, rfl⟩
  | cons piece pieces ih =>
    obtain ⟨f, ts⟩ := piece
    obtain ⟨hform, hflatten⟩ := h
    rw [List.forall_mem_cons] at hform
    rw [List.map_cons, List.flatten_cons] at hflatten
    rw [← hflatten, List.map_append] at hvs
    obtain ⟨ts', vs, rfl, hts', hvs⟩ := List.map_eq_append_iff.1 hvs
    obtain ⟨others, hothers, hforms⟩ := ih ⟨hform.2, rfl⟩ hvs
    refine ⟨(f, ts') :: others, ⟨?_, ?_⟩, by rw [List.map_cons, List.map_cons, hforms]⟩
    · exact List.forall_mem_cons.2 ⟨hform.1.of_words hts', hothers.form⟩
    · rw [List.map_cons, List.flatten_cons, hothers.flatten]

end Grammar

/-! ## The words of forms -/

/-- A token with this word. -/
def Word.token (w : Word) : Token :=
  { kind := w.1
    value := w.2 }

/-- The words of tokens that are made of words are those words. -/
theorem map_word_token (ws : List Word) : (ws.map Word.token).map Token.word = ws := by
  rw [List.map_map]
  exact List.map_id ws

/-- The words of a name are tokens of it. -/
theorem nameTokens_words (name : Option Text) :
    NameTokens name ((nameWords name).map Word.token) := by
  cases name with
  | none => exact .none
  | some name => exact .some rfl ⟨rfl, rfl⟩

/-- The words of arguments are tokens of them. -/
theorem argumentTokens_words {e : Expr} (he : e.Spellable) :
    ArgumentTokens e (e.words.map Word.token) := by
  cases he with
  | one hl => exact .one (Token.denotes_iff.2 rfl)
  | @many ls hls hl =>
    rw [Expr.words_group]
    refine .many ?_ hl
    rw [List.forall₂_map_left_iff, List.forall₂_map_left_iff, List.forall₂_same]
    exact fun l _ => Token.denotes_iff.2 rfl

/-- The words of a clause are tokens of it. -/
theorem clauseTokens_words {c : Clause} (hc : c.Spellable) :
    ClauseTokens c (c.words.map Word.token) := by
  rw [Clause.words, List.map_cons, List.map_cons, List.map_append]
  exact .mk ⟨rfl, rfl⟩ rfl (argumentTokens_words hc.argument) rfl

/-- The words of clauses are a row of them. -/
theorem clauseRow_words {cs : List Clause} (hne : cs ≠ []) (hcs : ∀ c ∈ cs, c.Spellable) :
    ClauseRow cs ((clausesWords cs).map Word.token) := by
  induction cs with
  | nil => exact absurd rfl hne
  | cons c cs ih =>
    rw [List.forall_mem_cons] at hcs
    cases cs with
    | nil => simpa [clausesWords] using ClauseRow.one (clauseTokens_words hcs.1)
    | cons d ds =>
      rw [clausesWords, List.map_cons, List.map_cons, List.intercalate_cons_cons, List.append_assoc,
        List.map_append, List.singleton_append, List.map_cons]
      exact .comma (clauseTokens_words hcs.1) rfl (ih (List.cons_ne_nil _ _) hcs.2)

/-- The words of a spellable form are those of tokens of the form. -/
theorem formTokens_words {f : Form} (hf : f.Spellable) : FormTokens f (f.words.map Word.token) := by
  cases f with
  | group name => exact .group rfl ⟨rfl, rfl⟩
  | generator name => exact .generatorWith rfl ⟨rfl, rfl⟩ rfl
  | fieldsSection => exact .fieldsSection rfl
  | field kind name => exact .field ⟨rfl, rfl⟩ (nameTokens_words name)
  | fieldWith kind name clauses =>
    obtain ⟨-, -, hne, hclauses⟩ := hf
    rw [Form.words, List.map_cons, List.map_append, List.map_cons]
    exact .fieldWith ⟨rfl, rfl⟩ (nameTokens_words (some name)) rfl
      (.plain (clauseRow_words hne hclauses))
  | constant l name => exact .constant (Token.denotes_iff.2 rfl) (nameTokens_words name)
  | update name clauses =>
    obtain ⟨-, hne, hclauses⟩ := hf
    exact .update ⟨rfl, rfl⟩ rfl (.plain (clauseRow_words hne hclauses))
  | parameter name value =>
    obtain ⟨-, l, rfl, -⟩ := hf
    exact .parameter ⟨rfl, rfl⟩ rfl (Token.denotes_iff.2 rfl)

/-! ## Programs -/

/-- Tokens with the same words are read as the same program. -/
theorem parse_of_words {p : Program} (h : parse us = .ok p)
    (hvs : vs.map Token.word = us.map Token.word) : parse vs = .ok p := by
  rcases parse_congr hvs none none with ⟨q, hq, hq'⟩ | ⟨e, e', -, he', -⟩
  · rw [hq'] at h
    rwa [← Except.ok.inj h]
  · rw [he'] at h
    cases h

end ByteLayout
