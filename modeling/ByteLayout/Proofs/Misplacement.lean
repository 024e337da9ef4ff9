import ByteLayout.Diagnostic.Report
import ByteLayout.Proofs.Decomposition
import ByteLayout.Proofs.Faithfulness
import ByteLayout.Proofs.Lines

/-!
# Where reading fails

A text whose tokens are no program is refused at a token of its own: what is before is a program, no
form begins at the token, and there is one more token behind it, since only the last one ends the
input (`exists_misplaced`). `Report.Misplaced` says that a report tells of such a token: its place
in the text, by line and column, and how it and the next one look.

`parseSource_misplaced`: every failure of a text that has tokens is told so.
-/

namespace ByteLayout

open Grammar

variable {source : Text} {tokens left : List Token} {t u : Token}

/-- The report tells that a token of the text is out of place before another one. -/
structure Report.Misplaced (r : Report) (source : List CodePoint) (t u : Token) (d : Diagnostic)
    (place : Location) : Prop where
  /-- It is the report of a text that is no program. -/
  kind : r.kind = .parse
  /-- It keeps the token. -/
  token : r.token = some t
  /-- It keeps the next token. -/
  next : r.next = some u
  /-- It has a diagnostic. -/
  diagnostic : r.diagnostic = some d
  /-- The diagnostic is that of a token out of place. -/
  code : d.code = .unexpectedToken
  /-- The message shows the two tokens. -/
  message : d.message = "Unexpected token " ++ t.inspect ++ ", next: " ++ u.inspect
  /-- The token was received in the place of a form. -/
  received : d.received = some t.inspect
  /-- The diagnostic tells the place. -/
  location : d.location = some place
  /-- The place is where the token was read from. -/
  span : t.span = some place.toSpan
  /-- The line counts the line ends before the token. -/
  line : place.line = 1 + (Text.lineEnds source place.start).length
  /-- The column counts from the last of them. -/
  column : place.column = 1 + place.start - (Text.lineEnds source place.start).getLastD 0
  /-- The four numbers bound a location. -/
  bounds : Location.ofBounds place.start place.stop place.line place.column = .ok place

/-- The numbers of a location bound it. -/
theorem Location.ofBounds_self (place : Location) :
    Location.ofBounds place.start place.stop place.line place.column = .ok place := by
  have hstop := place.start_le_stop
  have hline := place.one_le_line
  have hcolumn := place.one_le_column
  rw [ofBounds, dif_neg (by omega), dif_neg (by omega), dif_neg (by omega), dif_neg (by omega)]
  rfl

/-- Where reading the tokens of a text fails, two tokens are left at least, and the first one does
not end the input. -/
theorem exists_misplaced (hlex : lex source = .ok tokens)
    (h : Reader.formsFrom [] tokens = .error left) : ∃ pieces us t u rest,
      tokens = us ++ t :: u :: rest ∧ left = t :: u :: rest ∧ Decomposes pieces us ∧
      Reader.form? left = none ∧ t.kind ≠ .endOfInput := by
  obtain ⟨vs, hvs, -⟩ := (lex_iff_cut.1 hlex).ends
  obtain ⟨pieces, us, hsplit, hd, hform, hhead⟩ := Reader.formsFrom_error h
  have hends := hvs.symm.trans hsplit
  rcases left with _ | ⟨t, _ | ⟨u, rest⟩⟩
  · rw [List.append_nil] at hends
    exact absurd rfl (hd.kind_ne (Token.endAt (0 + source.toList.length)) (hends ▸ by simp))
  · have hlast := List.append_inj_right' hends rfl
    obtain rfl := (List.cons.inj hlast).1
    exact absurd rfl (hhead _ rfl)
  · exact ⟨pieces, us, t, u, rest, hsplit, rfl, hd, hform, hhead t rfl⟩

/-- The place of a token in its text. -/
theorem location?_of_lex (hlex : lex source = .ok tokens) (ht : t ∈ tokens)
    (hkind : t.kind ≠ .endOfInput) : ∃ place, t.location? (some source) = some place ∧
      t.span = some place.toSpan ∧
      place.line = 1 + (Text.lineEnds source.toList place.start).length ∧
      place.column =
        1 + place.start - (Text.lineEnds source.toList place.start).getLastD 0 := by
  obtain ⟨front, text, rest, w, hsource, -, -, rfl⟩ := (lex_iff_cut.1 hlex).exists_text ht hkind
  have hstart : 0 + front.length ≤ source.toList.length := by
    simp [hsource]
  have hplace := Text.LineIndex.place_eq source.toList (0 + front.length : Nat)
  rw [Text.LineIndex.clamp_ofText hstart] at hplace
  exact ⟨_, rfl, rfl, congrArg Prod.fst hplace, congrArg Prod.snd hplace⟩

/-- The failure of a text that has tokens is that of one of its tokens, which is out of place. What
is before it is a program, no form begins at it, and another token is behind it. The report tells of
the two tokens, and of the place of the first one by the line ends of the text. -/
theorem parseSource_misplaced {e : SourceError} (hlex : lex source = .ok tokens)
    (h : parseSource source 0 = .error e) : ∃ (e' : ParseError) (i : Nat) (t u : Token)
      (d : Diagnostic) (place : Location), e = .parsing e' ∧
      (∀ stop : Token, stop.kind = .endOfInput →
        ∃ p, parse (tokens.take i ++ [stop]) = .ok p) ∧
      Reader.form? (tokens.drop i) = none ∧ tokens[i]? = some t ∧ t.kind ≠ .endOfInput ∧
      tokens[i + 1]? = some u ∧
      (Report.ofParseError e').Misplaced source.toList t u d place := by
  have hparse : ∃ left, Reader.formsFrom [] tokens = .error left ∧
      e = .parsing (.atTokens left (some source)) := by
    unfold parseSource parse at h
    rw [if_neg (by omega), hlex] at h
    dsimp only at h
    cases hforms : Reader.formsFrom [] tokens with
    | ok forms =>
      rw [hforms] at h
      cases h
    | error left =>
      rw [hforms] at h
      cases h
      exact ⟨left, rfl, rfl⟩
  obtain ⟨left, hleft, rfl⟩ := hparse
  obtain ⟨pieces, us, t, u, rest, rfl, rfl, hd, hform, hkind⟩ := exists_misplaced hlex hleft
  obtain ⟨place, hplace, hspan, hline, hcolumn⟩ := location?_of_lex hlex (t := t) (by simp) hkind
  let e' := ParseError.atTokens (t :: u :: rest) (some source)
  refine ⟨e', us.length, t, u, e'.problem.diagnostic, place, rfl, fun stop hstop => ?_, ?_, ?_,
    hkind, ?_, ?_⟩
  · rw [List.take_left]
    exact ⟨_, parse_of_decomposes none hd hstop⟩
  · rwa [List.drop_left]
  · simp
  · simp
  · exact ⟨rfl, rfl, rfl, rfl, rfl, rfl, rfl, hplace, hspan, hline, hcolumn, place.ofBounds_self⟩

/-- The text of a group and a field, behind which `AS` has no name. Two line ends of different kinds
are before it. -/
def namelessText : Text := "DEFINE a\r\nu8\r AS = 1"

/-- The tokens of `namelessText`. -/
def namelessTokens : List Token :=
  [Word.tokenAt (.defineWord, .none) 0 6, Word.tokenAt (.identifier, .text "a") 7 1,
    Word.tokenAt (.typeName, .text "u8") 10 2, Word.tokenAt (.asWord, .none) 14 2,
    Word.tokenAt (.assign, .none) 17 1, Word.tokenAt (.integer, .integer 1) 19 1,
    Token.endAt 20]

/-- The error of `namelessText`. -/
def namelessError : SourceError :=
  .parsing (.atTokens (namelessTokens.drop 3) (some namelessText))

/-- `namelessText` is refused where the name is missing. -/
theorem parseSource_nameless :
    (lex namelessText = .ok namelessTokens ∧ parseSource namelessText 0 = .error namelessError) ∧
    ∃ (e' : ParseError) (i : Nat) (t u : Token) (d : Diagnostic) (place : Location),
      namelessError = .parsing e' ∧
      (∀ stop : Token, stop.kind = .endOfInput →
        ∃ p, parse (namelessTokens.take i ++ [stop]) = .ok p) ∧
      Reader.form? (namelessTokens.drop i) = none ∧ namelessTokens[i]? = some t ∧
      t.kind ≠ .endOfInput ∧ namelessTokens[i + 1]? = some u ∧
      (Report.ofParseError e').Misplaced namelessText.toList t u d place := by
  have hlex : lex namelessText = .ok namelessTokens := by decide +kernel
  have hparse : parseSource namelessText 0 = .error namelessError := by decide +kernel
  exact ⟨⟨hlex, hparse⟩, parseSource_misplaced hlex hparse⟩

end ByteLayout
