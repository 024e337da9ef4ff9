import ByteLayout.Proofs.Cutting

/-!
# Tokens tile their text

The spans of the tokens of a text and the gaps between them are the whole text, in order:
`Tiles source start tokens spans` says so for what stands from an offset on. Only a run of digits
that is too long to be a number keeps a text from having tokens.
-/

namespace ByteLayout

open Lexeme TokenClass

variable {c : CodePoint} {cs before rest source : List CodePoint} {start offset : Nat}
  {read tokens cut : List Token} {spans : List Span}

/-! ## Texts without tokens -/

/-- No run of decimal digits in the text is too long to be a number. -/
def NumbersFit (source : List CodePoint) : Prop :=
  ∀ digits, digits <:+: source → (∀ d ∈ digits, Text.isDecimalDigit d) →
    digits.length ≤ Text.digitLimit

/-- The numbers of a part fit if those of the whole do. -/
theorem NumbersFit.part (h : NumbersFit source) (hrest : rest <:+: source) : NumbersFit rest :=
  fun digits hdigits => h digits (hdigits.trans hrest)

/-- Where the numbers fit there is a lexeme at every character. -/
theorem NumbersFit.lexemeAt (h : NumbersFit (c :: cs)) : ∃ l, lexemeAt c cs = .ok l := by
  cases hl : ByteLayout.lexemeAt c cs with
  | ok l => exact ⟨l, rfl⟩
  | error e =>
    obtain ⟨digits, hrun, hdigits, hlong⟩ := (lexemeAt_eq_error_iff.1 hl).digitRun
    have := h digits hrun hdigits
    omega

/-- A text whose numbers fit is read. -/
theorem NumbersFit.tokensFrom (h : NumbersFit source) :
    ∃ tokens, tokensFrom offset read source = .ok tokens := by
  fun_induction ByteLayout.tokensFrom offset read source with
  | case1 => exact ⟨_, rfl⟩
  | case2 offset read c rest hblank ih => exact ih (h.part (List.suffix_cons c rest).isInfix)
  | case3 offset read rest comment hblank ih =>
    have hdrop := List.drop_suffix comment.length rest
    exact ih (h.part (hdrop.trans (List.suffix_cons (scalar '#') rest)).isInfix)
  | case4 offset read c rest hblank hmark e he =>
    obtain ⟨l, hl⟩ := h.lexemeAt
    rw [he] at hl
    cases hl
  | case5 offset read c rest hblank hmark l hl ih =>
    exact ih (h.part (List.drop_suffix l.size (c :: rest)).isInfix)

/-! ## Tiles -/

/-- The spans are those of the tokens, and they tile the text from an offset on: they are not empty,
in order and apart, and there are gaps before, between and after them. -/
structure Tiles (source : List CodePoint) (start : Nat) (tokens : List Token) (spans : List Span) :
    Prop where
  /-- Every token has its span. -/
  placed : tokens.map Token.span = spans.map some
  /-- No token is the end of the text, or a comment. -/
  kinds : ∀ t ∈ tokens, t.kind ≠ .endOfInput ∧ t.kind ≠ .comment
  /-- The spans hold characters of the text. -/
  inside : ∀ s ∈ spans, start ≤ s.start ∧ s.start < s.stop ∧ s.stop ≤ source.length
  /-- Every span ends before the next one. -/
  inOrder : spans.Pairwise fun a b => a.stop ≤ b.start
  /-- What no span covers is blanks and comments. -/
  gaps : ∀ gap ∈ (start :: spans.map Span.stop).zip (spans.map Span.start ++ [source.length]),
    GapBefore (source.extract gap.1 gap.2) (source.drop gap.2)

/-- A gap up to the end of the text is tiled by nothing. -/
theorem Tiles.nil (h : GapBefore (source.extract start source.length) []) :
    Tiles source start [] [] where
  placed := rfl
  kinds := by simp
  inside := by simp
  inOrder := .nil
  gaps := by simpa using h

/-- A token after a gap is the next tile. -/
theorem Tiles.cons {t : Token} {s : Span} (hspan : t.span = some s)
    (hkind : t.kind ≠ .endOfInput ∧ t.kind ≠ .comment) (hstart : start ≤ s.start)
    (hsize : s.start < s.stop) (hstop : s.stop ≤ source.length)
    (hgap : GapBefore (source.extract start s.start) (source.drop s.start))
    (h : Tiles source s.stop tokens spans) : Tiles source start (t :: tokens) (s :: spans) where
  placed := by rw [List.map_cons, List.map_cons, hspan, h.placed]
  kinds := List.forall_mem_cons.2 ⟨hkind, h.kinds⟩
  inside := by
    refine List.forall_mem_cons.2 ⟨⟨hstart, hsize, hstop⟩, fun s' hs' => ?_⟩
    obtain ⟨hafter, hsize', hstop'⟩ := h.inside s' hs'
    exact ⟨by omega, hsize', hstop'⟩
  inOrder := .cons (fun s' hs' => (h.inside s' hs').1) h.inOrder
  gaps := List.forall_mem_cons.2 ⟨hgap, h.gaps⟩

/-- The tokens of a cut tile the text that it is the end of, and one more ends it. -/
theorem Cut.tiles (h : Cut offset rest cut) : ∀ before, before.length = offset →
    ∃ tokens spans, cut = tokens ++ [Token.endAt (before ++ rest).length] ∧
      Tiles (before ++ rest) offset tokens spans := by
  induction h with
  | @last offset gap hgap =>
    rintro before rfl
    refine ⟨[], [], by simp, .nil ?_⟩
    simpa [List.extract] using hgap
  | @token offset gap text rest w tokens hgap htext hhead _ ih =>
    rintro before rfl
    have hpos : 0 < text.length := by
      obtain ⟨c, cs, rfl, -⟩ := htext.head
      exact Nat.succ_pos _
    obtain ⟨tokens, spans, rfl, htiles⟩ := ih (before ++ gap ++ text) (by simp [Nat.add_assoc])
    simp only [List.append_assoc] at htiles ⊢
    have hsource : before ++ (gap ++ (text ++ rest)) = (before ++ gap) ++ (text ++ rest) := by simp
    have hextract : (before ++ (gap ++ (text ++ rest))).extract before.length
        (before.length + gap.length) = gap := extract_middle before gap (text ++ rest)
    have hdrop : (before ++ (gap ++ (text ++ rest))).drop (before.length + gap.length) =
        text ++ rest := by
      rw [hsource, ← List.length_append, List.drop_left]
    refine ⟨_ :: tokens, _ :: spans, rfl, .cons rfl htext.kind ?_ ?_ ?_ ?_ htiles⟩
    · exact Nat.le_add_right _ _
    · exact Nat.lt_add_of_pos_right hpos
    · simp only [List.length_append]
      omega
    · rwa [hextract, hdrop]

/-- Tokens tile their text. -/
theorem lex_tiles {source : Text} (h : NumbersFit source.toList) :
    (∃ tokens spans, lex source = .ok (tokens ++ [Token.endAt source.length]) ∧
      Tiles source.toList 0 tokens spans) ∧
    ∀ n < source.length, ∃ l, firstLexeme? all (source.toList.drop n) = .ok (some l) := by
  constructor
  · obtain ⟨cut, hlex⟩ : ∃ cut, lex source = .ok cut := h.tokensFrom
    obtain ⟨tokens, spans, rfl, htiles⟩ := (lex_iff_cut.1 hlex).tiles [] rfl
    exact ⟨tokens, spans, hlex, htiles⟩
  · intro n hn
    have hrest := h.part (List.drop_suffix n source.toList).isInfix
    have hne : source.toList.drop n ≠ [] := by
      rwa [Ne, List.drop_eq_nil_iff, Text.length_toList, Nat.not_le]
    obtain ⟨c, cs, hdrop⟩ := List.exists_cons_of_ne_nil hne
    rw [hdrop] at hrest ⊢
    obtain ⟨l, hl⟩ := hrest.lexemeAt
    exact ⟨l, lexemeAt_eq_ok_iff.1 hl⟩

/-- No number of a short text has too many digits. -/
theorem numbersFit_of_length_le (h : source.length ≤ Text.digitLimit) : NumbersFit source :=
  fun _ hrun _ => hrun.length_le.trans h

/-- A text with a size that is too large, lexemes that touch, an open comment and marks that nothing
closes. -/
def touchingText : Text :=
  "x[4294967296]->--1\"\x60#"

/-- It is cut into tokens, gaps and nothing else. -/
theorem crowdedText_tiles : NumbersFit touchingText.toList ∧
    (∃ tokens spans, lex touchingText = .ok (tokens ++ [Token.endAt 21]) ∧
      Tiles touchingText.toList 0 tokens spans) ∧
    ∀ n < 21, ∃ l, firstLexeme? all (touchingText.toList.drop n) = .ok (some l) := by
  have hfit : NumbersFit touchingText.toList := numbersFit_of_length_le (by decide)
  exact ⟨hfit, lex_tiles hfit⟩

end ByteLayout
