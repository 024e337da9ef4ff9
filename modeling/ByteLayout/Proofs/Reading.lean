import ByteLayout.Proofs.Grammar

/-!
# Readers and the grammar

The readers of programs against the grammar of layout programs, part by part.

* `Reader.form?_sound`: what a reader takes off the front of some tokens are the tokens of its form.
* `Reader.form?_complete`: the tokens of a form are taken whole, if what follows them has no part in
  them. `Reader.Boundary` says so of the tokens that follow; `Reader.Boundary.of_form` shows it of
  the tokens of another form.

The readers are greedy. That loses no derivation because each optional part begins with a token that
nothing after a form begins with, and a further clause is told from a form by its second token.
-/

namespace ByteLayout

open Grammar

variable {ts rest : List Token}

/-! ## Single tokens -/

/-- A token that is read as a literal denotes it. -/
theorem Reader.literalOf?_eq_some {t : Token} {l : Literal} (h : Reader.literalOf? t = some l) :
    t.Denotes l := by
  unfold Reader.literalOf? at h
  split at h
  · next n hk hv =>
    cases h
    exact .integer hk hv
  · next s hk hv =>
    cases h
    exact .text ⟨hk, hv⟩
  · next bs hk hv =>
    cases h
    exact .bytes hk hv
  · next name hk hv =>
    cases h
    exact .reserved ⟨hk, hv⟩
  · cases h

/-- A token that denotes a literal is read as it. -/
theorem Token.Denotes.literalOf? {t : Token} {l : Literal} (h : t.Denotes l) :
    Reader.literalOf? t = some l := by
  cases h with
  | integer hk hv | bytes hk hv => simp [Reader.literalOf?, hk, hv]
  | text h | reserved h => simp [Reader.literalOf?, h.1, h.2]

namespace Reader

/-- A text that is read is spelled by the first token. -/
theorem textOf?_sound {kind : TokenKind} {text : Text}
    (h : textOf? kind ts = some (text, rest)) : ∃ t, ts = t :: rest ∧ t.Spells kind text := by
  unfold textOf? at h
  split at h
  · cases h
  · next t more =>
    split at h
    · next s hv =>
      split at h
      · next hk =>
        cases h
        exact ⟨t, rfl, hk, hv⟩
      · cases h
    · cases h

/-- A token that spells a text is read as it. -/
theorem textOf?_complete {t : Token} {kind : TokenKind} {text : Text} (h : t.Spells kind text) :
    textOf? kind (t :: rest) = some (text, rest) := by
  simp [textOf?, h.1, h.2]

/-- No text is read from a token of another kind. -/
theorem textOf?_eq_none {t : Token} {kind : TokenKind} (h : t.kind ≠ kind) :
    textOf? kind (t :: rest) = none := by
  simp only [textOf?, h, if_false]
  split <;> rfl

/-- A token of the kind is passed over. -/
theorem keyword?_complete {t : Token} {kind : TokenKind} (h : t.kind = kind) :
    keyword? kind (t :: rest) = some rest := by
  simp [keyword?, h]

/-- A token of another kind stays. -/
theorem keyword?_eq_none {t : Token} {kind : TokenKind} (h : t.kind ≠ kind) :
    keyword? kind (t :: rest) = none := by
  simp [keyword?, h]

/-- A literal that is read is denoted by the first token. -/
theorem literal?_sound {l : Literal} (h : literal? ts = some (l, rest)) :
    ∃ t, ts = t :: rest ∧ t.Denotes l := by
  unfold literal? at h
  split at h
  · cases h
  · next t more =>
    simp only [Option.map_eq_some_iff, Prod.mk.injEq] at h
    obtain ⟨l, hl, rfl, rfl⟩ := h
    exact ⟨t, rfl, literalOf?_eq_some hl⟩

/-- A token that denotes a literal is taken for it. -/
theorem literal?_complete {t : Token} {l : Literal} (h : t.Denotes l) :
    literal? (t :: rest) = some (l, rest) := by
  simp [literal?, h.literalOf?]

/-! ## Arguments and clauses -/

/-- Literals are taken up to the first token that is none. -/
theorem literals_append {us : List Token} {ls : List Literal}
    (h : List.Forall₂ Token.Denotes us ls) :
    literals (us ++ rest) = (ls ++ (literals rest).1, (literals rest).2) := by
  induction h with
  | nil => rfl
  | cons ht _ ih =>
    simp only [literals, Prod.mk.injEq] at ih ⊢
    simp [ht.literalOf?, ih.1, ih.2]

/-- The literals at the front of some tokens, each with its token. -/
theorem literals_sound (ts : List Token) :
    ∃ us, ts = us ++ (literals ts).2 ∧ List.Forall₂ Token.Denotes us (literals ts).1 := by
  induction ts with
  | nil => exact ⟨[], rfl, .nil⟩
  | cons t ts ih =>
    cases ht : literalOf? t with
    | none => exact ⟨[], by simp [literals, ht], by simp [literals, ht]⟩
    | some l =>
      obtain ⟨us, hts, hus⟩ := ih
      refine ⟨t :: us, ?_, ?_⟩
      · simpa [literals, ht] using hts
      · simpa [literals, ht] using ⟨literalOf?_eq_some ht, hus⟩

/-- Arguments are literals, at least one, and the expression is what these make. -/
theorem argumentTokens_iff {us : List Token} {e : Expr} : ArgumentTokens e us ↔
    ∃ l ls, List.Forall₂ Token.Denotes us (l :: ls) ∧ e = argumentOf (l :: ls) := by
  constructor
  · intro h
    cases h with
    | one ht => exact ⟨_, [], .cons ht .nil, rfl⟩
    | @many _ ls hts hl =>
      match ls, hl with
      | l :: l' :: ls, _ => exact ⟨l, l' :: ls, hts, rfl⟩
  · rintro ⟨l, ls, h, rfl⟩
    cases ls with
    | nil =>
      cases h with
      | cons ht hts =>
        cases hts
        exact .one ht
    | cons l' ls => exact .many h (by simp)

/-- Arguments that are read stand between parentheses. -/
theorem arguments?_sound {e : Expr} (h : arguments? ts = some (e, rest)) :
    ∃ o us c, ts = o :: (us ++ [c]) ++ rest ∧ o.kind = .leftParen ∧ ArgumentTokens e us ∧
      c.kind = .rightParen := by
  simp only [arguments?, Option.bind_eq_bind, Option.bind_eq_some_iff] at h
  obtain ⟨inner, hi, h⟩ := h
  obtain ⟨o, rfl, ho⟩ := keyword?_eq_some hi
  obtain ⟨us, hin, hus⟩ := literals_sound inner
  split at h
  · cases h
  · next l ls after heq =>
    simp only [Option.bind_eq_some_iff, Option.pure_def, Option.some.injEq, Prod.mk.injEq] at h
    obtain ⟨r, hr, rfl, rfl⟩ := h
    obtain ⟨c, rfl, hc⟩ := keyword?_eq_some hr
    rw [heq] at hin hus
    exact ⟨o, us, c, by simpa using hin, ho, argumentTokens_iff.2 ⟨l, ls, hus, rfl⟩, hc⟩

/-- Arguments between parentheses are read, whatever comes behind them. -/
theorem arguments?_complete {o c : Token} {e : Expr} {us : List Token} (ho : o.kind = .leftParen)
    (he : ArgumentTokens e us) (hc : c.kind = .rightParen) :
    arguments? (o :: (us ++ c :: rest)) = some (e, rest) := by
  obtain ⟨l, ls, hls, rfl⟩ := argumentTokens_iff.1 he
  have hnone : literalOf? c = none := by simp [literalOf?, hc]
  have hstop : literals (us ++ c :: rest) = (l :: ls, c :: rest) := by
    rw [literals_append hls]
    simp [literals, hnone]
  simp [arguments?, keyword?_complete ho, hstop, keyword?_complete hc]

/-- A clause that is read is spelled by the tokens that were taken. -/
theorem clause?_sound {c : Clause} (h : clause? ts = some (c, rest)) :
    ∃ us, ts = us ++ rest ∧ ClauseTokens c us := by
  simp only [clause?, Option.bind_eq_bind, Option.bind_eq_some_iff, Option.pure_def,
    Option.some.injEq, Prod.mk.injEq, Prod.exists] at h
  obtain ⟨attr, r, hr, e, r', hr', rfl, rfl⟩ := h
  obtain ⟨t, rfl, ht⟩ := textOf?_sound hr
  obtain ⟨o, us, c, rfl, ho, he, hc⟩ := arguments?_sound hr'
  exact ⟨t :: o :: (us ++ [c]), rfl, .mk ht ho he hc⟩

/-- The tokens of a clause are read as it, whatever comes behind them. -/
theorem clause?_complete {c : Clause} {us : List Token} (h : ClauseTokens c us) :
    clause? (us ++ rest) = some (c, rest) := by
  cases h with
  | mk ht ho he hc =>
    simp [clause?, identifier?, textOf?_complete ht, arguments?_complete ho he hc]

/-! ## Rows of clauses -/

/-- A comma is passed over. -/
theorem skipComma_comma {k : Token} (hk : k.kind = .comma) : skipComma (k :: rest) = rest := by
  simp [skipComma, keyword?_complete hk]

/-- Nothing but a comma is passed over. -/
theorem skipComma_of_ne {t : Token} (ht : t.kind ≠ .comma) :
    skipComma (t :: rest) = t :: rest := by
  simp [skipComma, keyword?_eq_none ht]

/-- What a comma is skipped from is a comma and what is left, or all that is left. -/
theorem skipComma_cases (ts : List Token) :
    skipComma ts = ts ∨ ∃ k, k.kind = .comma ∧ ts = k :: skipComma ts := by
  cases h : keyword? .comma ts with
  | none => exact .inl (by simp [skipComma, h])
  | some rest =>
    obtain ⟨k, rfl, hk⟩ := keyword?_eq_some h
    exact .inr ⟨k, hk, by rw [skipComma_comma hk]⟩

/-- No clause begins with a comma. -/
theorem skipComma_clause {c : Clause} {us : List Token} (h : ClauseTokens c us) :
    skipComma (us ++ rest) = us ++ rest := by
  cases h with
  | mk ht => exact skipComma_of_ne (by simp [ht.1])

/-- A clause behind an optional comma is read, and reading goes on behind it. -/
theorem moreClauses_of_clause? {read : List Clause} {c : Clause}
    (h : clause? (skipComma ts) = some (c, rest)) :
    moreClauses read ts = moreClauses (c :: read) rest := by
  rw [moreClauses]
  split
  · next h' =>
    rw [h] at h'
    cases h'
  · next h' =>
    rw [h] at h'
    cases h'
    rfl

/-- Where no clause follows, the clauses end, and a last comma is passed over. -/
theorem moreClauses_of_none {read : List Clause} (h : clause? (skipComma ts) = none) :
    moreClauses read ts = (read.reverse, skipComma ts) := by
  rw [moreClauses]
  split
  · rfl
  · next h' =>
    rw [h] at h'
    cases h'

/-- The tokens after a clause, up to where no more clauses are found, go on with its row. -/
theorem moreClauses_sound (read : List Clause) (ts : List Token) :
    ∃ cs, (moreClauses read ts).1 = read.reverse ++ cs ∧
      ∀ c us, ClauseTokens c us →
        ∃ vs, us ++ ts = vs ++ (moreClauses read ts).2 ∧ ClausesTokens (c :: cs) vs := by
  fun_induction moreClauses read ts with
  | case1 read ts h =>
    refine ⟨[], by simp, fun c us hc => ?_⟩
    rcases skipComma_cases ts with hs | ⟨k, hk, hs⟩
    · exact ⟨us, by rw [hs], .plain (.one hc)⟩
    · exact ⟨us ++ [k], by simp [← hs], .trailing (.one hc) hk⟩
  | case2 read ts c' rest h ih =>
    obtain ⟨cs, hcs, hrow⟩ := ih
    obtain ⟨us', hts, hc'⟩ := clause?_sound h
    obtain ⟨vs, hvs, hrow⟩ := hrow c' us' hc'
    refine ⟨c' :: cs, by simpa using hcs, fun c us hc => ?_⟩
    rcases skipComma_cases ts with hs | ⟨k, hk, hs⟩
    · refine ⟨us ++ vs, by rw [← hs, hts, hvs, List.append_assoc], ?_⟩
      cases hrow with
      | plain hrow => exact .plain (.cons hc hrow)
      | trailing hrow hk' =>
        rw [← List.append_assoc]
        exact .trailing (.cons hc hrow) hk'
    · refine ⟨us ++ k :: vs, by rw [hs, hts, hvs]; simp, ?_⟩
      cases hrow with
      | plain hrow => exact .plain (.comma hc hk hrow)
      | trailing hrow hk' =>
        rw [← List.cons_append, ← List.append_assoc]
        exact .trailing (.comma hc hk hrow) hk'

/-- A row of clauses is taken whole, and the comma after it. -/
theorem moreClauses_complete {cs : List Clause} {us : List Token} (h : ClauseRow cs us)
    (hrest : clause? (skipComma rest) = none) (read : List Clause) :
    moreClauses read (us ++ rest) = (read.reverse ++ cs, skipComma rest) := by
  induction h generalizing read with
  | @one c us hc =>
    have hfirst : clause? (skipComma (us ++ rest)) = some (c, rest) := by
      rw [skipComma_clause hc, clause?_complete hc]
    rw [moreClauses_of_clause? hfirst, moreClauses_of_none hrest]
    simp
  | @cons c cs us vs hc _ ih =>
    have hfirst : clause? (skipComma (us ++ (vs ++ rest))) = some (c, vs ++ rest) := by
      rw [skipComma_clause hc, clause?_complete hc]
    rw [List.append_assoc, moreClauses_of_clause? hfirst, ih]
    simp
  | @comma c cs us vs k hc hk hrow ih =>
    have hfirst : clause? (skipComma (us ++ k :: (vs ++ rest))) = some (c, k :: (vs ++ rest)) := by
      rw [skipComma_clause hc, clause?_complete hc]
    have hskip : skipComma (k :: (vs ++ rest)) = skipComma (vs ++ rest) := by
      rw [skipComma_comma hk]
      cases hrow with
      | one hd => rw [skipComma_clause hd]
      | cons hd | comma hd => rw [List.append_assoc, skipComma_clause hd]
    have hcomma : moreClauses (c :: read) (k :: (vs ++ rest)) =
        moreClauses (c :: read) (vs ++ rest) := by
      rw [moreClauses, moreClauses, hskip]
    rw [List.append_assoc, List.cons_append, moreClauses_of_clause? hfirst, hcomma, ih]
    simp

/-- Clauses that are read are spelled by the tokens that were taken. -/
theorem clauses?_sound {cs : List Clause} (h : clauses? ts = some (cs, rest)) :
    ∃ us, ts = us ++ rest ∧ ClausesTokens cs us := by
  simp only [clauses?, Option.bind_eq_bind, Option.bind_eq_some_iff, Option.pure_def,
    Option.some.injEq, Prod.exists] at h
  obtain ⟨c, r, hr, h⟩ := h
  obtain ⟨us, rfl, hc⟩ := clause?_sound hr
  obtain ⟨cs', hcs', hrow⟩ := moreClauses_sound [c] r
  obtain ⟨vs, hvs, hrow⟩ := hrow c us hc
  rw [h] at hcs' hvs
  obtain rfl : cs = c :: cs' := by simpa using hcs'
  exact ⟨vs, hvs, hrow⟩

/-- A row of clauses is read up to where no clause follows. -/
theorem clauses?_of_row {cs : List Clause} {us : List Token} (h : ClauseRow cs us)
    (hrest : clause? (skipComma rest) = none) :
    clauses? (us ++ rest) = some (cs, skipComma rest) := by
  obtain ⟨c, vs, ws, rfl, hc⟩ : ∃ c vs ws, us = vs ++ ws ∧ ClauseTokens c vs := by
    cases h with
    | one hc => exact ⟨_, _, [], by simp, hc⟩
    | cons hc | comma hc => exact ⟨_, _, _, rfl, hc⟩
  have hall := moreClauses_complete h hrest []
  have hfirst : clause? (vs ++ (ws ++ rest)) = some (c, ws ++ rest) := clause?_complete hc
  rw [List.append_assoc] at hall ⊢
  rw [moreClauses_of_clause? (by rw [skipComma_clause hc, hfirst])] at hall
  simp [clauses?, hfirst, hall]

/-- Clauses are read whole if neither a comma nor a clause follows. -/
theorem clauses?_complete {cs : List Clause} {us : List Token} (h : ClausesTokens cs us)
    (hcomma : skipComma rest = rest) (hrest : clause? rest = none) :
    clauses? (us ++ rest) = some (cs, rest) := by
  cases h with
  | plain hrow => rw [clauses?_of_row hrow (by rw [hcomma, hrest]), hcomma]
  | trailing hrow hk =>
    rw [List.append_assoc, List.singleton_append,
      clauses?_of_row hrow (by rw [skipComma_comma hk, hrest]), skipComma_comma hk]

/-! ## Names -/

/-- A name that is read is spelled by the tokens that were taken, perhaps by none. -/
theorem name_sound (ts : List Token) :
    ∃ us, ts = us ++ (name ts).2 ∧ NameTokens (name ts).1 us := by
  unfold name
  split
  · exact ⟨[], rfl, .none⟩
  · next text rest h =>
    obtain ⟨r, hr, hi⟩ := Option.bind_eq_some_iff.1 h
    obtain ⟨a, rfl, ha⟩ := keyword?_eq_some hr
    obtain ⟨t, rfl, ht⟩ := textOf?_sound hi
    exact ⟨[a, t], rfl, .some ha ht⟩

/-- A name is read whole if no `AS` follows. -/
theorem name_complete {n : Option Text} {us : List Token} (h : NameTokens n us)
    (hrest : keyword? .asWord rest = none) : name (us ++ rest) = (n, rest) := by
  cases h with
  | none => simp [name, hrest]
  | some ha ht => simp [name, keyword?_complete ha, identifier?, textOf?_complete ht]

/-! ## Forms -/

/-- What is read as the beginning of a group has its form. -/
theorem group?_sound {f : Form} (h : group? ts = some (f, rest)) :
    ∃ us, ts = us ++ rest ∧ FormTokens f us := by
  simp only [group?, Option.bind_eq_bind, Option.bind_eq_some_iff, Option.pure_def,
    Option.some.injEq, Prod.mk.injEq, Prod.exists] at h
  obtain ⟨r, hr, name, r', hr', rfl, rfl⟩ := h
  obtain ⟨d, rfl, hd⟩ := keyword?_eq_some hr
  obtain ⟨t, rfl, ht⟩ := textOf?_sound hr'
  exact ⟨[d, t], rfl, .group hd ht⟩

/-- A `WITH` is skipped, or nothing. -/
theorem skipWith_cases (ts : List Token) :
    skipWith ts = ts ∨ ∃ w, w.kind = .withWord ∧ ts = w :: skipWith ts := by
  unfold skipWith
  split
  · next t rest h =>
    obtain ⟨w, rfl, hw⟩ := keyword?_eq_some h
    exact .inr ⟨w, hw, rfl⟩
  · exact .inl rfl

/-- What is read as the beginning of the generator has its form. -/
theorem generator?_sound {f : Form} (h : generator? ts = some (f, rest)) :
    ∃ us, ts = us ++ rest ∧ FormTokens f us := by
  simp only [generator?, Option.bind_eq_bind, Option.bind_eq_some_iff, Option.pure_def,
    Option.some.injEq, Prod.mk.injEq, Prod.exists] at h
  obtain ⟨r, hr, name, r', hr', rfl, rfl⟩ := h
  obtain ⟨g, rfl, hg⟩ := keyword?_eq_some hr
  obtain ⟨t, rfl, ht⟩ := textOf?_sound hr'
  rcases skipWith_cases r' with hs | ⟨w, hw, hs⟩
  · exact ⟨[g, t], by rw [hs]; rfl, .generator hg ht⟩
  · exact ⟨[g, t, w], by simp [← hs], .generatorWith hg ht hw⟩

/-- What is read as a random field has its form, with clauses or without. -/
theorem field?_sound {f : Form} (h : field? ts = some (f, rest)) :
    ∃ us, ts = us ++ rest ∧ FormTokens f us := by
  simp only [field?, Option.bind_eq_bind, Option.bind_eq_some_iff, Option.pure_def,
    Prod.exists] at h
  obtain ⟨kind, r, hr, h⟩ := h
  obtain ⟨t, rfl, ht⟩ := textOf?_sound hr
  obtain ⟨us, hus, hn⟩ := name_sound r
  split at h
  · simp only [Option.some.injEq, Prod.mk.injEq] at h
    obtain ⟨rfl, rfl⟩ := h
    exact ⟨t :: us, by rw [List.cons_append, ← hus], .field ht hn⟩
  · next after harrow =>
    simp only [Option.bind_eq_some_iff, Option.some.injEq, Prod.mk.injEq, Prod.exists] at h
    obtain ⟨n, hname, cs, r', hr', rfl, rfl⟩ := h
    obtain ⟨a, ha, hk⟩ := keyword?_eq_some harrow
    obtain ⟨vs, rfl, hc⟩ := clauses?_sound hr'
    rw [hname] at hn
    refine ⟨t :: (us ++ a :: vs), ?_, .fieldWith ht hn hk hc⟩
    rw [hus, ha]
    simp

/-- What is read as a constant has its form. -/
theorem constant?_sound {f : Form} (h : constant? ts = some (f, rest)) :
    ∃ us, ts = us ++ rest ∧ FormTokens f us := by
  simp only [constant?, Option.bind_eq_bind, Option.bind_eq_some_iff, Option.pure_def,
    Option.some.injEq, Prod.mk.injEq, Prod.exists] at h
  obtain ⟨l, r, hr, rfl, rfl⟩ := h
  obtain ⟨t, rfl, ht⟩ := literal?_sound hr
  obtain ⟨us, hus, hn⟩ := name_sound r
  exact ⟨t :: us, by rw [List.cons_append, ← hus], .constant ht hn⟩

/-- What is read as the beginning of a section has its form. -/
theorem fieldsSection?_sound {f : Form} (h : fieldsSection? ts = some (f, rest)) :
    ∃ us, ts = us ++ rest ∧ FormTokens f us := by
  simp only [fieldsSection?, Option.bind_eq_bind, Option.bind_eq_some_iff, Option.pure_def,
    Option.some.injEq, Prod.mk.injEq] at h
  obtain ⟨r, hr, rfl, rfl⟩ := h
  obtain ⟨w, rfl, hw⟩ := keyword?_eq_some hr
  exact ⟨[w], rfl, .fieldsSection hw⟩

/-- What is read as an update has its form. -/
theorem update?_sound {f : Form} (h : update? ts = some (f, rest)) :
    ∃ us, ts = us ++ rest ∧ FormTokens f us := by
  simp only [update?, Option.bind_eq_bind, Option.bind_eq_some_iff, Option.pure_def,
    Option.some.injEq, Prod.mk.injEq, Prod.exists] at h
  obtain ⟨name, r, hr, r', hr', cs, r'', hcs, rfl, rfl⟩ := h
  obtain ⟨t, rfl, ht⟩ := textOf?_sound hr
  obtain ⟨a, rfl, ha⟩ := keyword?_eq_some hr'
  obtain ⟨vs, rfl, hc⟩ := clauses?_sound hcs
  exact ⟨t :: a :: vs, rfl, .update ht ha hc⟩

/-- What is read as a parameter has its form. -/
theorem parameter?_sound {f : Form} (h : parameter? ts = some (f, rest)) :
    ∃ us, ts = us ++ rest ∧ FormTokens f us := by
  simp only [parameter?, expr?, Option.bind_eq_bind, Option.bind_eq_some_iff, Option.pure_def,
    Option.some.injEq, Option.map_eq_some_iff, Prod.mk.injEq, Prod.exists] at h
  obtain ⟨name, r, hr, r', hr', e, r'', ⟨l, r3, hl, rfl, rfl⟩, rfl, rfl⟩ := h
  obtain ⟨t, rfl, ht⟩ := textOf?_sound hr
  obtain ⟨a, rfl, ha⟩ := keyword?_eq_some hr'
  obtain ⟨v, rfl, hv⟩ := literal?_sound hl
  exact ⟨[t, a, v], rfl, .parameter ht ha hv⟩

/-- What a reader of forms takes off the front are the tokens of its form. -/
theorem form?_sound {f : Form} (h : form? ts = some (f, rest)) :
    ∃ us, ts = us ++ rest ∧ FormTokens f us := by
  obtain ⟨reader, hm, h⟩ := List.exists_of_findSome?_eq_some h
  simp only [forms, List.mem_cons, List.not_mem_nil, or_false] at hm
  rcases hm with rfl | rfl | rfl | rfl | rfl | rfl | rfl
  · exact group?_sound h
  · exact generator?_sound h
  · exact field?_sound h
  · exact constant?_sound h
  · exact fieldsSection?_sound h
  · exact update?_sound h
  · exact parameter?_sound h

/-- Tokens that no form before them can reach into. -/
structure Boundary (ts : List Token) : Prop where
  /-- There is a token, so that a `WITH` before it joins something. -/
  ne_nil : ts ≠ []
  /-- No name follows. -/
  asWord : keyword? .asWord ts = none
  /-- No `WITH` follows. -/
  withWord : keyword? .withWord ts = none
  /-- No clauses follow. -/
  rightArrow : keyword? .rightArrow ts = none
  /-- No comma follows. -/
  comma : keyword? .comma ts = none
  /-- No further clause follows. -/
  clause : clause? ts = none

/-- A token that goes on with no form marks a boundary. -/
theorem Boundary.of_head {t : Token} (hi : t.kind ≠ .identifier) (ha : t.kind ≠ .asWord)
    (hw : t.kind ≠ .withWord) (hr : t.kind ≠ .rightArrow) (hc : t.kind ≠ .comma) :
    Boundary (t :: rest) where
  ne_nil := List.cons_ne_nil _ _
  asWord := keyword?_eq_none ha
  withWord := keyword?_eq_none hw
  rightArrow := keyword?_eq_none hr
  comma := keyword?_eq_none hc
  clause := by simp [clause?, identifier?, textOf?_eq_none hi]

/-- A name begins no clause if no parenthesis follows it. -/
theorem Boundary.of_identifier {t u : Token} (ht : t.kind = .identifier)
    (hu : u.kind ≠ .leftParen) : Boundary (t :: u :: rest) where
  ne_nil := List.cons_ne_nil _ _
  asWord := keyword?_eq_none (by simp [ht])
  withWord := keyword?_eq_none (by simp [ht])
  rightArrow := keyword?_eq_none (by simp [ht])
  comma := keyword?_eq_none (by simp [ht])
  clause := by
    cases h : textOf? .identifier (t :: u :: rest) with
    | none => simp [clause?, identifier?, h]
    | some found =>
      obtain ⟨name, after⟩ := found
      obtain ⟨t', heq, -⟩ := textOf?_sound h
      cases heq
      simp [clause?, identifier?, h, arguments?, keyword?_eq_none hu]

/-- A literal marks a boundary, for no form goes on with one. -/
theorem Boundary.of_denotes {t : Token} {l : Literal} (h : t.Denotes l) :
    Boundary (t :: rest) := by
  cases h with
  | integer hk | bytes hk => apply Boundary.of_head <;> simp [hk]
  | text h | reserved h => apply Boundary.of_head <;> simp [h.1]

/-- No form reaches into the tokens of a form after it. -/
theorem Boundary.of_form {f : Form} {us : List Token} (h : FormTokens f us) :
    Boundary (us ++ rest) := by
  cases h with
  | group hk | generator hk | generatorWith hk | fieldsSection hk =>
    apply Boundary.of_head <;> simp [hk]
  | field h | fieldWith h => apply Boundary.of_head <;> simp [h.1]
  | constant h => exact .of_denotes h
  | update h hk | parameter h hk => exact .of_identifier h.1 (by simp [hk])

/-- The tokens of the beginning of a group are read as it. -/
theorem group?_complete {d t : Token} {text : Text} (hd : d.kind = .defineWord)
    (ht : t.Spells .identifier text) :
    group? (d :: t :: rest) = some (.group text, rest) := by
  simp [group?, keyword?_complete hd, identifier?, textOf?_complete ht]

/-- The tokens of the beginning of the generator are read as it, `WITH` included. -/
theorem generator?_complete {g t : Token} {text : Text} (hg : g.kind = .generateWord)
    (ht : t.Spells .identifier text) :
    generator? (g :: t :: rest) = some (.generator text, skipWith rest) := by
  simp [generator?, keyword?_complete hg, identifier?, textOf?_complete ht]

/-- Without `WITH` nothing is passed over. -/
theorem skipWith_of_none (h : keyword? .withWord ts = none) : skipWith ts = ts := by
  simp [skipWith, h]

/-- `WITH` is passed over, unless it is the last token of all. -/
theorem skipWith_withWord {w : Token} (hw : w.kind = .withWord) (hrest : rest ≠ []) :
    skipWith (w :: rest) = rest := by
  cases rest with
  | nil => exact absurd rfl hrest
  | cons t rest => simp [skipWith, keyword?_complete hw]

/-- The tokens of a random field are read as it up to a boundary. -/
theorem field?_complete {t : Token} {kind : Text} {n : Option Text} {us : List Token}
    (ht : t.Spells .typeName kind) (hn : NameTokens n us) (hrest : Boundary rest) :
    field? (t :: (us ++ rest)) = some (.field kind n, rest) := by
  simp [field?, typeName?, textOf?_complete ht, name_complete hn hrest.asWord, hrest.rightArrow]

/-- So are those of a random field with clauses. -/
theorem field?_complete_with {t a : Token} {kind text : Text} {cs : List Clause}
    {us vs : List Token} (ht : t.Spells .typeName kind) (hn : NameTokens (some text) us)
    (ha : a.kind = .rightArrow) (hc : ClausesTokens cs vs) (hrest : Boundary rest) :
    field? (t :: (us ++ a :: (vs ++ rest))) = some (.fieldWith kind text cs, rest) := by
  have hname : name (us ++ a :: (vs ++ rest)) = (some text, a :: (vs ++ rest)) :=
    name_complete hn (keyword?_eq_none (by simp [ha]))
  have hskip : skipComma rest = rest := by simp [skipComma, hrest.comma]
  simp [field?, typeName?, textOf?_complete ht, hname, keyword?_complete ha,
    clauses?_complete hc hskip hrest.clause]

/-- The tokens of a constant are read as it up to a boundary. -/
theorem constant?_complete {t : Token} {l : Literal} {n : Option Text} {us : List Token}
    (ht : t.Denotes l) (hn : NameTokens n us) (hrest : Boundary rest) :
    constant? (t :: (us ++ rest)) = some (.constant l n, rest) := by
  simp [constant?, literal?_complete ht, name_complete hn hrest.asWord]

/-- The tokens of an update are read as it up to a boundary. -/
theorem update?_complete {t a : Token} {text : Text} {cs : List Clause} {vs : List Token}
    (ht : t.Spells .identifier text) (ha : a.kind = .rightArrow) (hc : ClausesTokens cs vs)
    (hrest : Boundary rest) :
    update? (t :: a :: (vs ++ rest)) = some (.update text cs, rest) := by
  have hskip : skipComma rest = rest := by simp [skipComma, hrest.comma]
  simp [update?, identifier?, textOf?_complete ht, keyword?_complete ha,
    clauses?_complete hc hskip hrest.clause]

/-- The tokens of a parameter are read as it. -/
theorem parameter?_complete {t a v : Token} {text : Text} {l : Literal}
    (ht : t.Spells .identifier text) (ha : a.kind = .assign) (hv : v.Denotes l) :
    parameter? (t :: a :: v :: rest) = some (.parameter text (.literal l), rest) := by
  simp [parameter?, identifier?, textOf?_complete ht, keyword?_complete ha, expr?,
    literal?_complete hv]

/-- A group begins with `DEFINE`. -/
theorem group?_eq_none {t : Token} (h : t.kind ≠ .defineWord) : group? (t :: rest) = none := by
  simp [group?, keyword?_eq_none h]

/-- The generator begins with `GENERATE`. -/
theorem generator?_eq_none {t : Token} (h : t.kind ≠ .generateWord) :
    generator? (t :: rest) = none := by
  simp [generator?, keyword?_eq_none h]

/-- A random field begins with its type. -/
theorem field?_eq_none {t : Token} (h : t.kind ≠ .typeName) : field? (t :: rest) = none := by
  simp [field?, typeName?, textOf?_eq_none h]

/-- A constant begins with its literal. -/
theorem constant?_eq_none {t : Token} (h : literalOf? t = none) :
    constant? (t :: rest) = none := by
  simp [constant?, literal?, h]

/-- A section begins with `WHERE`. -/
theorem fieldsSection?_eq_none {t : Token} (h : t.kind ≠ .whereWord) :
    fieldsSection? (t :: rest) = none := by
  simp [fieldsSection?, keyword?_eq_none h]

/-- Before an identifier in front only updates and parameters are found. -/
theorem form?_of_identifier {t : Token} (ht : t.kind = .identifier) : form? (t :: rest) =
    [update?, parameter?].findSome? fun reader => reader (t :: rest) := by
  have hgroup : group? (t :: rest) = none := group?_eq_none (by simp [ht])
  have hgenerator : generator? (t :: rest) = none := generator?_eq_none (by simp [ht])
  have hfield : field? (t :: rest) = none := field?_eq_none (by simp [ht])
  have hconstant : constant? (t :: rest) = none := constant?_eq_none (by simp [literalOf?, ht])
  have hsection : fieldsSection? (t :: rest) = none := fieldsSection?_eq_none (by simp [ht])
  simp only [form?, forms, List.findSome?, hgroup, hgenerator, hfield, hconstant, hsection]

/-- Before a literal in front only constants are found. -/
theorem form?_of_denotes {t : Token} {l : Literal} (ht : t.Denotes l) :
    form? (t :: rest) = [constant?, fieldsSection?, update?, parameter?].findSome?
      fun reader => reader (t :: rest) := by
  have hkind : t.kind ≠ .defineWord ∧ t.kind ≠ .generateWord ∧ t.kind ≠ .typeName := by
    cases ht with
    | integer hk | bytes hk => simp [hk]
    | text h | reserved h => simp [h.1]
  have hgroup : group? (t :: rest) = none := group?_eq_none hkind.1
  have hgenerator : generator? (t :: rest) = none := generator?_eq_none hkind.2.1
  have hfield : field? (t :: rest) = none := field?_eq_none hkind.2.2
  simp only [form?, forms, List.findSome?, hgroup, hgenerator, hfield]

/-- The tokens of a form are taken whole, if no form can reach into what follows them. -/
theorem form?_complete {f : Form} {us : List Token} (h : FormTokens f us)
    (hrest : Boundary rest) : form? (us ++ rest) = some (f, rest) := by
  cases h with
  | @group d t name hd ht => simp [form?, forms, group?_complete hd ht]
  | @generator g t name hg ht =>
    have hgroup : group? (g :: t :: rest) = none := group?_eq_none (by simp [hg])
    simp [form?, forms, hgroup, generator?_complete hg ht, skipWith_of_none hrest.withWord]
  | @generatorWith g t w name hg ht hw =>
    have hgroup : group? (g :: t :: w :: rest) = none := group?_eq_none (by simp [hg])
    simp [form?, forms, hgroup, generator?_complete hg ht, skipWith_withWord hw hrest.ne_nil]
  | @field t kind n us ht hn =>
    have hgroup : group? (t :: (us ++ rest)) = none := group?_eq_none (by simp [ht.1])
    have hgenerator : generator? (t :: (us ++ rest)) = none := generator?_eq_none (by simp [ht.1])
    simp [form?, forms, hgroup, hgenerator, field?_complete ht hn hrest]
  | @fieldWith t r kind name cs us vs ht hn hr hc =>
    have hgroup : group? (t :: (us ++ r :: (vs ++ rest))) = none :=
      group?_eq_none (by simp [ht.1])
    have hgenerator : generator? (t :: (us ++ r :: (vs ++ rest))) = none :=
      generator?_eq_none (by simp [ht.1])
    simp [form?, forms, hgroup, hgenerator, field?_complete_with ht hn hr hc hrest]
  | @constant t l n us ht hn =>
    rw [List.cons_append, form?_of_denotes ht]
    simp [constant?_complete ht hn hrest]
  | @fieldsSection w hw =>
    have hgroup : group? (w :: rest) = none := group?_eq_none (by simp [hw])
    have hgenerator : generator? (w :: rest) = none := generator?_eq_none (by simp [hw])
    have hfield : field? (w :: rest) = none := field?_eq_none (by simp [hw])
    have hconstant : constant? (w :: rest) = none := constant?_eq_none (by simp [literalOf?, hw])
    simp [form?, forms, hgroup, hgenerator, hfield, hconstant, fieldsSection?,
      keyword?_complete hw]
  | @update t r name cs us ht hr hc =>
    rw [List.cons_append, form?_of_identifier ht.1]
    simp [update?_complete ht hr hc hrest]
  | @parameter t a v name l ht ha hv =>
    have hupdate : update? (t :: a :: v :: rest) = none := by
      simp [update?, identifier?, textOf?_complete ht,
        keyword?_eq_none (show a.kind ≠ .rightArrow by simp [ha])]
    rw [List.cons_append, form?_of_identifier ht.1]
    simp [hupdate, parameter?_complete ht ha hv]

end Reader

end ByteLayout
