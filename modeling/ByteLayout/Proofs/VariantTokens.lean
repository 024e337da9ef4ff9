import ByteLayout.Proofs.NumberLimit
import ByteLayout.Proofs.Variants

/-!
# The tokens of a variant
 A text and its variant are cut at the same places. `Word.Varies` says what that leaves of a word:
its kind, its numbers and its bytes, and its names up to the case of their letters; only in a text
between quotation marks the line ends may be others.
 `lex_varied`: a variant has tokens exactly if the text has. They vary one by one, and their spans
are the same where line ends are kept; a text without tokens has as many digits too many as its
variant. `lex_lower`: texts that are the same in lower case are cut into the same tokens up to case.
-/

namespace ByteLayout

open Lexeme

variable {letters lines : Bool} {gap last rest rest' source source' text text' : List CodePoint}
  {w w' : Word} {offset offset' : Nat} {tokens : List Token}

/-! ## Words -/

/-- The kinds whose values spell their lexemes. -/
def spellingKinds : List TokenKind :=
  [.typeName, .identifier, .reserved, .illegal]

/-- The kinds whose values have a text. -/
def textualKinds : List TokenKind :=
  .text :: .typeArray :: spellingKinds

/-- The words differ as the texts of words do in variants. -/
inductive Word.Varies (letters lines : Bool) : Word → Word → Prop
  /-- A word without a text is the same. -/
  | same {kind : TokenKind} {value : TokenValue} (hkind : kind ∉ textualKinds) :
    Varies letters lines (kind, value) (kind, value)
  /-- A spelling varies in its letters. -/
  | spelling {kind : TokenKind} {s s' : Text} (hkind : kind ∈ spellingKinds)
    (h : Varied letters false s.toList s'.toList) :
    Varies letters lines (kind, .text s) (kind, .text s')
  /-- The name of an array type varies in its letters. -/
  | sized {s s' : Text} {size : Nat} (h : Varied letters false s.toList s'.toList) :
    Varies letters lines (.typeArray, .sized s size) (.typeArray, .sized s' size)
  /-- A text between quotation marks varies. -/
  | literal {s s' : Text} (h : Varied letters lines s.toList s'.toList) :
    Varies letters lines (.text, .text s) (.text, .text s')

/-- Names with the same letters in lower case are words of one kind. -/
theorem nameWord_varies {s s' : Text} (h : Varied letters false s.toList s'.toList)
    (hlower : Text.lower s = Text.lower s') :
    Word.Varies letters lines (nameWord s) (nameWord s') := by
  unfold nameWord
  rw [← hlower]
  split
  · exact .spelling (by decide) h
  split
  · exact .spelling (by decide) h
  split
  · next kind hkeyword =>
    refine .same ?_
    rcases keyword?_cases hkeyword with rfl | rfl | rfl | rfl | rfl | rfl
    all_goals decide
  · exact .spelling (by decide) h

/-- Whether a character is a digit is the same for its variants. -/
theorem isBlind_isDecimalDigit : IsBlind Text.isDecimalDigit := by
  decide

/-- A digit has no variant but itself. -/
theorem isSteady_of_isDecimalDigit {c : CodePoint} (hc : Text.isDecimalDigit c) : isSteady c := by
  have hend : isLineEnd c = false := by
    rw [isLineEnd, Bool.or_eq_false_iff, decide_eq_false_iff_not, decide_eq_false_iff_not]
    exact ⟨ne_of_isDecimalDigit hc (by decide), ne_of_isDecimalDigit hc (by decide)⟩
  rw [isSteady, isLetter_of_isDecimalDigit hc, hend]
  rfl

/-- A numeral has neither letters nor line ends. -/
theorem IsNumeral.isSteady {sign digits : List CodePoint} (h : IsNumeral sign digits) :
    (sign ++ digits).all ByteLayout.isSteady := by
  rw [List.all_append, Bool.and_eq_true]
  refine ⟨?_, List.all_eq_true.2 fun c hc => isSteady_of_isDecimalDigit (h.isDigit c hc)⟩
  rcases h.sign with hsign | hsign
  · rw [hsign]
    rfl
  · rw [hsign]
    decide

/-- A size in brackets has neither letters nor line ends. -/
theorem IsNumeral.isSteady_brackets {sign digits : List CodePoint} (h : IsNumeral sign digits) :
    (scalar '[' :: (sign ++ (digits ++ [scalar ']']))).all ByteLayout.isSteady := by
  rw [← List.append_assoc, List.all_cons, List.all_append, h.isSteady]
  decide

/-- After a variant there is a size in brackets only if there was one before. -/
theorem NoSize.varied (h : NoSize rest) (hrest : Varied letters lines rest rest') :
    NoSize rest' := by
  rintro sign digits ⟨hnumeral, more, rfl⟩
  have hsplit : scalar '[' :: (sign ++ (digits ++ scalar ']' :: more)) =
      scalar '[' :: (sign ++ (digits ++ [scalar ']'])) ++ more := by simp
  rw [hsplit] at hrest
  obtain ⟨more', rfl, -⟩ := hrest.of_steady_append hnumeral.isSteady_brackets
  exact h sign digits ⟨hnumeral, more', by simp⟩

/-- A mark that opens nothing opens nothing before a variant. -/
theorem Varied.bodyAt?_eq_none {mark : CodePoint} (hrest : Varied letters lines rest rest')
    (hmark : isSteady mark) (h : bodyAt? mark (mark :: rest) = none) :
    bodyAt? mark (mark :: rest') = none := by
  rw [bodyAt?_eq_none_iff] at h ⊢
  rcases h with hclosed | hopen
  · obtain ⟨more, rfl⟩ := List.head?_eq_some_iff.1 hclosed
    obtain ⟨more', rfl, -⟩ := hrest.steady_cons hmark
    exact .inl rfl
  · exact .inr (by rwa [← hrest.mem_iff hmark])

/-- A backtick that opens no bytes opens none before a variant. -/
theorem Varied.bytes?_eq_none (hrest : Varied letters lines rest rest')
    (h : bytes? (scalar '\x60' :: rest) = none) : bytes? (scalar '\x60' :: rest') = none := by
  have hmark : isSteady '\x60' := by decide
  rw [bytes?_eq_none_iff] at h ⊢
  by_cases hmem : scalar '\x60' ∈ rest
  · have hspells := h.resolve_left (not_not.2 hmem)
    obtain ⟨body, more, rfl, hbody⟩ := List.eq_append_cons_of_mem hmem
    obtain ⟨body', closed, rfl, hbodies, hclosed⟩ := hrest.split fun _ => by simp
    obtain ⟨more', rfl, -⟩ := hclosed.steady_cons hmark
    rw [takeWhile_body hbody] at hspells
    rw [takeWhile_body (by rwa [← hbodies.mem_iff hmark])]
    refine .inr ?_
    rintro ⟨bytes, hbytes⟩
    exact hspells ⟨bytes, hbodies.spellsBytes_iff.2 hbytes⟩
  · exact .inl (by rwa [← hrest.mem_iff hmark])

/-- No text of a word that is no gap ends with a carriage return. -/
theorem SpelledBefore.getLast?_ne (h : SpelledBefore text w rest)
    (hhead : ∀ c ∈ text.head?, opensGap c = false) : text.getLast? ≠ some (scalar '\r') := by
  have hmarks : ∀ p ∈ marks, p.1 ≠ '\r' := by decide
  intro hlast
  have hmem := List.mem_of_getLast? hlast
  cases h with
  | text | bytes | typeArray => simp [List.getLast?_cons, List.getLast?_append] at hlast
  | name hs => exact not_mem_of_isName hs hmem
  | integer h => exact absurd (List.all_eq_true.1 h.isSteady _ hmem) (by decide)
  | mark h => exact hmarks _ h (List.mem_singleton.1 hmem).symm
  | odd => exact absurd (hhead _ hlast) (by decide)
  | arrow | minus | quote | tick => exact absurd hlast (by decide)

/-- A variant of the text of a word is the text of a variant of the word. -/
theorem SpelledBefore.varied (h : SpelledBefore text w rest)
    (hhead : ∀ c ∈ text.head?, opensGap c = false) (htext : Varied letters lines text text')
    (hrest : Varied letters lines rest rest') :
    ∃ w', SpelledBefore text' w' rest' ∧ Word.Varies letters lines w w' := by
  cases h with
  | text h =>
    obtain ⟨body, rfl, hbody⟩ := htext.enclosed (by decide)
    obtain ⟨s', rfl, hs'⟩ := hbody.isQuotable h
    exact ⟨_, .text hs', .literal hbody⟩
  | bytes hmark h =>
    obtain ⟨body, rfl, hbody⟩ := htext.enclosed (by decide)
    rw [mapM_chunkByte?_iff, hbody.spellsBytes_iff] at h
    rw [hbody.mem_iff (by decide)] at hmark
    exact ⟨_, .bytes hmark (mapM_chunkByte?_iff.2 h), .same (by decide)⟩
  | typeArray hs h hlen hsize =>
    obtain ⟨name, brackets, rfl, hname, hbrackets⟩ := htext.split fun _ => by simp
    obtain rfl := hbrackets.eq_of_steady h.isSteady_brackets
    obtain ⟨s', rfl, hs', hletters, -⟩ := hname.isName hs
    exact ⟨_, .typeArray hs' h hlen hsize, .sized hletters⟩
  | name hs hnext hsize =>
    obtain ⟨s', rfl, hs', hletters, hlower⟩ := htext.isName hs
    have hnext' := hrest.forall_head isBlind_isNameChar hnext
    exact ⟨_, .name hs' hnext' (hsize.varied hrest), nameWord_varies hletters hlower⟩
  | integer h hlen hnext =>
    obtain rfl := htext.eq_of_steady h.isSteady
    have hnext' := hrest.forall_head isBlind_isDecimalDigit hnext
    exact ⟨_, .integer h hlen hnext', .same (by decide)⟩
  | arrow =>
    obtain rfl := htext.eq_of_steady (by decide)
    exact ⟨_, .arrow, .same (by decide)⟩
  | minus hnext =>
    obtain rfl := htext.eq_of_steady (by decide)
    have hdigit := hrest.forall_head isBlind_isDecimalDigit fun x hx => (hnext x hx).1
    have harrow := hrest.forall_head (p := (· == '>')) (b := false) (by decide)
      fun x hx => by simpa using (hnext x hx).2
    exact ⟨_, .minus fun x hx => ⟨hdigit x hx, by simpa using harrow x hx⟩, .same (by decide)⟩
  | @mark c kind _ h =>
    have hsteady : ∀ p ∈ marks, isSteady p.1 := by decide
    have hkind : ∀ p ∈ marks, p.2 ∉ textualKinds := by decide
    obtain rfl := htext.eq_of_steady (by simpa using hsteady _ h)
    exact ⟨_, .mark h, .same (hkind _ h)⟩
  | @odd c _ h =>
    have hgap := hhead c rfl
    have hsteady : isSteady c := by
      simp only [opensGap, isBlank, Bool.or_eq_false_iff] at hgap
      simp [isSteady, h.notLetter, isLineEnd, hgap.1.1.2, hgap.1.2]
    obtain rfl := htext.eq_of_steady (by simpa using hsteady)
    exact ⟨_, .odd h, .spelling (by decide) (.refl _)⟩
  | quote h =>
    obtain rfl := htext.eq_of_steady (by decide)
    exact ⟨_, .quote (hrest.bodyAt?_eq_none (by decide) h), .spelling (by decide) (.refl _)⟩
  | tick h =>
    obtain rfl := htext.eq_of_steady (by decide)
    exact ⟨_, .tick (hrest.bytes?_eq_none h), .spelling (by decide) (.refl _)⟩

/-! ## Cuts -/

/-- Whether a character ends a line is the same for its variants. -/
theorem isBlind_isLineEnd : IsBlind isLineEnd := by
  decide

/-- A variant of a gap is a gap. -/
theorem GapBefore.varied {gap' : List CodePoint} (h : GapBefore gap rest)
    (hgap : Varied letters lines gap gap') (hrest : Varied letters lines rest rest') :
    GapBefore gap' rest' := by
  induction h generalizing gap' with
  | nil =>
    obtain rfl := hgap.eq_nil_iff.1 rfl
    exact .nil
  | @blank c gap rest hblank h ih =>
    cases hgap with
    | char hc hgap =>
      have hsame : isBlank c = isBlank _ := hc.congr (by decide)
      exact .blank (hsame ▸ hblank) (ih hgap hrest)
    | lineEnd hlines hgap =>
      -- The pair becomes its line feed, so the gap that is left has all of the variant.
      exact ih (.char (.inl rfl) hgap) hrest
  | @comment body gap rest hbody hend h ih =>
    obtain ⟨new, rfl, hnew⟩ := hgap.steady_cons (by decide)
    obtain ⟨body', gap', rfl, hbodies, hgaps⟩ := hnew.split fun hlast _ => by
      exact absurd (hbody _ (List.mem_of_getLast? hlast)) (by decide)
    refine .comment ?_ ?_ (ih hgaps hrest)
    · have hkept := hbodies.forall_iff (p := (!isLineEnd ·)) (by decide)
      simpa using hkept.1 (by simpa using hbody)
    · exact (hgaps.append hrest).forall_head isBlind_isLineEnd hend

/-- A gap and the text of a word vary apart. -/
theorem Varied.split_word (h : Varied letters lines (gap ++ (text ++ rest)) source')
    (htext : SpelledBefore text w rest) (hhead : ∀ c ∈ text.head?, opensGap c = false) :
    ∃ gap' text' rest', source' = gap' ++ (text' ++ rest') ∧ Varied letters lines gap gap' ∧
      Varied letters lines text text' ∧ Varied letters lines rest rest' := by
  obtain ⟨c, cs, hlist, -⟩ := htext.head
  have hfeed : (text ++ rest).head? ≠ some (scalar '\n') := by
    rw [hlist] at hhead ⊢
    intro hc
    exact absurd (hhead _ hc) (by decide)
  obtain ⟨gap', more, rfl, hgap, hmore⟩ := h.split fun _ => hfeed
  obtain ⟨text', rest', rfl, hword, hrest⟩ := hmore.split fun hlast =>
    absurd hlast (htext.getLast?_ne hhead)
  exact ⟨gap', text', rest', rfl, hgap, hword, hrest⟩

/-- The text of a variant of a word is no gap. -/
theorem Varied.head_opensGap (h : Varied letters lines text text')
    (hhead : ∀ c ∈ text.head?, opensGap c = false) : ∀ c ∈ text'.head?, opensGap c = false :=
  h.forall_head (by decide) hhead

/-- The tokens differ as the tokens of variants do. -/
structure Token.Varies (letters lines : Bool) (t t' : Token) : Prop where
  /-- Their words vary. -/
  word : t.word.Varies letters lines t'.word
  /-- They have the same places where line ends are kept. -/
  span : lines = false → t'.span = t.span

/-- A variant is cut into variants of the words. -/
theorem Cut.varied (h : Cut offset source tokens) (hsource : Varied letters lines source source')
    (hoffset : lines = false → offset' = offset) :
    ∃ tokens', Cut offset' source' tokens' ∧
      List.Forall₂ (Token.Varies letters lines) tokens tokens' := by
  induction h generalizing offset' source' with
  | @last offset gap hgap =>
    have hkind : TokenKind.endOfInput ∉ textualKinds := by decide
    refine ⟨_, .last (hgap.varied hsource .nil), .cons ⟨.same hkind, ?_⟩ .nil⟩
    rintro rfl
    rw [Token.endAt, Token.endAt, hoffset rfl, hsource.length_eq]
  | @token offset gap text rest w tokens hgap htext hhead _ ih =>
    obtain ⟨gap', text', rest', rfl, hgaps, htexts, hrests⟩ := hsource.split_word htext hhead
    obtain ⟨w', hspelled, hword⟩ := htext.varied hhead htexts hrests
    have hoffset' : lines = false →
        offset' + gap'.length + text'.length = offset + gap.length + text.length := by
      rintro rfl
      rw [hoffset rfl, hgaps.length_eq, htexts.length_eq]
    obtain ⟨tokens', hcut, htokens⟩ := ih hrests hoffset'
    refine ⟨_, .token (hgap.varied hgaps (htexts.append hrests)) hspelled
      (htexts.head_opensGap hhead) hcut, .cons ⟨hword, ?_⟩ htokens⟩
    rintro rfl
    rw [Word.tokenAt, Word.tokenAt, hoffset rfl, hgaps.length_eq, htexts.length_eq]

/-! ## Texts without tokens -/

/-- A variant begins with a number that has as many digits too many. -/
theorem StartsOverlong.varied {n : Nat} (h : StartsOverlong n source)
    (hsource : Varied letters lines source source') : StartsOverlong n source' := by
  cases h with
  | @integer sign digits rest h hnext hlong =>
    rw [← List.append_assoc] at hsource
    obtain ⟨rest', rfl, hrest⟩ := hsource.steady_append h.isSteady
    rw [List.append_assoc]
    have hnext' := hrest.forall_head isBlind_isDecimalDigit hnext
    exact .integer h hnext' hlong
  | @size s sign digits rest hs h hlong =>
    have hsplit : scalar '[' :: (sign ++ (digits ++ scalar ']' :: rest)) =
        scalar '[' :: (sign ++ (digits ++ [scalar ']'])) ++ rest := by simp
    rw [hsplit] at hsource
    obtain ⟨name, more, rfl, hname, hmore⟩ := hsource.split fun _ => by simp
    obtain ⟨rest', rfl, -⟩ := hmore.steady_append h.isSteady_brackets
    obtain ⟨s', rfl, hs', -, -⟩ := hname.isName hs
    have hstarts : StartsOverlong digits.length
      (s'.toList ++ scalar '[' :: (sign ++ (digits ++ scalar ']' :: rest'))) := .size hs' h hlong
    simpa using hstarts

/-- A variant is cut to where the text is. -/
theorem CutTo.varied (h : CutTo source last) (hlast : ∀ c ∈ last.head?, opensGap c = false)
    (hsource : Varied letters lines source source') :
    ∃ last', CutTo source' last' ∧ Varied letters lines last last' := by
  induction h generalizing source' with
  | gap hgap =>
    obtain ⟨gap', last', rfl, hgaps, hlasts⟩ := hsource.split fun _ hfeed =>
      absurd (hlast _ hfeed) (by decide)
    exact ⟨last', .gap (hgap.varied hgaps hlasts), hlasts⟩
  | token hgap htext hhead _ ih =>
    obtain ⟨gap', text', rest', rfl, hgaps, htexts, hrests⟩ := hsource.split_word htext hhead
    obtain ⟨w', hspelled, -⟩ := htext.varied hhead htexts hrests
    obtain ⟨last', hcut, hlasts⟩ := ih hlast hrests
    exact ⟨last', .token (hgap.varied hgaps (htexts.append hrests)) hspelled
      (htexts.head_opensGap hhead) hcut, hlasts⟩

/-- The tokens of a variant are variants of the tokens of the text, and where the text has none the
variant has none for the same reason. -/
theorem lex_varied {a b : Text} (h : Varied letters lines a.toList b.toList) :
    (∃ ts us, lex a = .ok ts ∧ lex b = .ok us ∧ List.Forall₂ (Token.Varies letters lines) ts us) ∨
      ∃ e, lex a = .error e ∧ lex b = .error e := by
  cases hlex : lex a with
  | ok ts =>
    obtain ⟨us, hcut, hvaries⟩ := (lex_iff_cut.1 hlex).varied h fun _ => rfl
    exact .inl ⟨ts, us, rfl, lex_iff_cut.2 hcut, hvaries⟩
  | error e =>
    obtain ⟨last, hcut, hlong⟩ := (lex_error_iff.1 e).1 hlex
    obtain ⟨c, cs, rfl, hc⟩ := hlong.head
    obtain ⟨last', hcut', hvaried⟩ := hcut.varied (by simpa using hc) h
    exact .inr ⟨e, rfl, (lex_error_iff.1 e).2 ⟨last', hcut', hlong.varied hvaried⟩⟩

/-! ## Letter case -/

/-- The tokens have one kind and one place, and what their values spell is the same in lower case.
-/
structure Token.SameUpToCase (t u : Token) : Prop where
  /-- They have one kind. -/
  kind : u.kind = t.kind
  /-- They have one place. -/
  span : u.span = t.span
  /-- Their values are the same, up to the case of letters where they have texts. -/
  value : match t.kind with
    | .typeName | .identifier | .reserved | .text | .illegal =>
      ∃ s s', t.value = .text s ∧ u.value = .text s' ∧ Text.lower s = Text.lower s'
    | .typeArray => ∃ s s' size, t.value = .sized s size ∧ u.value = .sized s' size ∧
        Text.lower s = Text.lower s'
    | _ => u.value = t.value

/-- Variants in letters only have the same small letters. -/
theorem Varied.lower_eq {s s' : Text} (h : Varied letters false s.toList s'.toList) :
    Text.lower s = Text.lower s' := by
  rw [Text.lower, Text.lower, h.map_toLower]

/-- Tokens that vary in the case of letters. -/
theorem Token.Varies.sameUpToCase {t u : Token} (h : Token.Varies true false t u) :
    t.SameUpToCase u := by
  obtain ⟨kind, value, span⟩ := t
  obtain ⟨kind', value', span'⟩ := u
  obtain ⟨hword, hspan⟩ := h
  refine ⟨?_, hspan rfl, ?_⟩
  · cases hword <;> rfl
  cases hword with
  | same hkind =>
    simp only [textualKinds, spellingKinds, List.mem_cons, List.not_mem_nil, or_false,
      not_or] at hkind
    split <;> simp_all
  | spelling hkind h =>
    simp only [spellingKinds, List.mem_cons, List.not_mem_nil, or_false] at hkind
    rcases hkind with rfl | rfl | rfl | rfl
    all_goals exact ⟨_, _, rfl, rfl, h.lower_eq⟩
  | sized h => exact ⟨_, _, _, rfl, rfl, h.lower_eq⟩
  | literal h => exact ⟨_, _, rfl, rfl, h.lower_eq⟩

/-- Texts that differ only in the case of letters both have tokens, which are the same up to case,
or both have none. -/
theorem lex_lower {a b : Text} (h : Text.lower a = Text.lower b) :
    (∃ ts us, lex a = .ok ts ∧ lex b = .ok us ∧ List.Forall₂ Token.SameUpToCase ts us) ∨
      ∃ e, lex a = .error e ∧ lex b = .error e := by
  have hvaried : Varied true false a.toList b.toList := .of_map_toLower (Text.ofList_inj.1 h)
  refine (lex_varied hvaried).imp_left ?_
  rintro ⟨ts, us, hts, hus, hvaries⟩
  exact ⟨ts, us, hts, hus, hvaries.imp fun _ _ => Token.Varies.sameUpToCase⟩

/-- Keywords, names and digits in both cases. -/
theorem lex_lower_mixed : Text.lower "Define Ä[3] xY[4] \x60fF 0a\x60 \"Aa" =
      Text.lower "dEFINE Ä[3] Xy[4] \x60Ff 0A\x60 \"aA" ∧
    ((∃ ts us, lex "Define Ä[3] xY[4] \x60fF 0a\x60 \"Aa" = .ok ts ∧
        lex "dEFINE Ä[3] Xy[4] \x60Ff 0A\x60 \"aA" = .ok us ∧
        List.Forall₂ Token.SameUpToCase ts us) ∨
      ∃ e, lex "Define Ä[3] xY[4] \x60fF 0a\x60 \"Aa" = .error e ∧
        lex "dEFINE Ä[3] Xy[4] \x60Ff 0A\x60 \"aA" = .error e) := by
  have hlower : Text.lower "Define Ä[3] xY[4] \x60fF 0a\x60 \"Aa" =
      Text.lower "dEFINE Ä[3] Xy[4] \x60Ff 0A\x60 \"aA" := by decide +kernel
  exact ⟨hlower, lex_lower hlower⟩

end ByteLayout
