import ByteLayout.Proofs.LexemeText

/-!
# How a text is cut

A text is cut into gaps of blanks and comments and the texts of words. `GapBefore gap rest` says
that something is a gap where another text follows it: a comment in it goes on to a line end, or to
the end of the text. `Cut offset source tokens` says that a text is, in turn, gaps and texts of
words, and that the tokens are the words with their places, and one more for the end.

`lex_iff_cut`: the tokens of a text are those of a cut, so there is at most one.
-/

namespace ByteLayout

open Lexeme TokenClass

variable {c : CodePoint} {cs gap more text body rest new source : List CodePoint} {offset : Nat}
  {w : Word} {read tokens : List Token}

/-! ## Gaps -/

/-- Whether a character ends a line, and a comment before it. -/
def isLineEnd (c : CodePoint) : Bool :=
  c = '\n' || c = '\r'

/-- Blanks and comments, where another text follows them. -/
inductive GapBefore : List CodePoint → List CodePoint → Prop
  /-- Nothing. -/
  | nil {rest : List CodePoint} : GapBefore [] rest
  /-- A blank. -/
  | blank {c : CodePoint} {gap rest : List CodePoint} (hc : isBlank c) (h : GapBefore gap rest) :
    GapBefore (c :: gap) rest
  /-- A comment, which goes on to a line end or the end of the text. -/
  | comment {body gap rest : List CodePoint} (hbody : ∀ x ∈ body, isLineEnd x = false)
    (hend : ∀ x ∈ (gap ++ rest).head?, isLineEnd x) (h : GapBefore gap rest) :
    GapBefore (scalar '#' :: (body ++ gap)) rest

/-- A gap begins with a blank or a comment. -/
theorem GapBefore.head (h : GapBefore gap rest) : ∀ x ∈ gap.head?, opensGap x := by
  cases h with
  | nil => simp
  | blank hc => simp [opensGap, hc]
  | comment => simp [opensGap]

/-- Gaps follow each other. -/
theorem GapBefore.append (h : GapBefore gap (more ++ rest)) (hmore : GapBefore more rest) :
    GapBefore (gap ++ more) rest := by
  generalize hbefore : more ++ rest = before at h
  induction h with
  | nil => exact hmore
  | blank hc _ ih => exact .blank hc (ih hbefore)
  | @comment body gap before hbody hend _ ih =>
    subst hbefore
    rw [List.cons_append, List.append_assoc]
    exact .comment hbody (by rwa [List.append_assoc]) (ih rfl)

/-- Of what follows a gap only the first character counts, and a line end may be first. -/
theorem GapBefore.of_head (h : GapBefore gap rest)
    (hnew : ∀ x ∈ new.head?, x ∈ rest.head? ∨ isLineEnd x) : GapBefore gap new := by
  induction h with
  | nil => exact .nil
  | blank hc _ ih => exact .blank hc (ih hnew)
  | @comment body gap rest hbody hend _ ih =>
    refine .comment hbody (fun x hx => ?_) (ih hnew)
    cases gap with
    | nil => exact (hnew x hx).elim (hend x) id
    | cons c gap => exact hend x hx

/-- A comment goes up to the end of the line. -/
theorem commentBody_eq (source : List CodePoint) :
    commentBody source = source.takeWhile (!isLineEnd ·) := by
  unfold commentBody
  congr 1
  funext c
  rw [isLineEnd, Bool.not_or, bne, bne, beq_eq_decide, beq_eq_decide]

/-- The body of a comment is all up to the line end. -/
theorem commentBody_append (hbody : ∀ x ∈ body, isLineEnd x = false)
    (hend : ∀ x ∈ rest.head?, isLineEnd x) : commentBody (body ++ rest) = body := by
  rw [commentBody_eq]
  exact takeWhile_append_stop (by simpa using hbody) (by simpa using hend)

/-- A text is the body of a comment and what goes on with a line end. -/
theorem commentBody_split (source : List CodePoint) : ∃ rest, source = commentBody source ++ rest ∧
    (∀ x ∈ commentBody source, isLineEnd x = false) ∧ ∀ x ∈ rest.head?, isLineEnd x := by
  rw [commentBody_eq]
  obtain ⟨rest, hsplit, hbody, hrest⟩ := takeWhile_split (!isLineEnd ·) source
  exact ⟨rest, hsplit, by simpa using hbody, by simpa using hrest⟩

/-- A comment is a gap before what its body leaves of the text. -/
theorem gapBefore_comment (source : List CodePoint) : ∃ rest, source = commentBody source ++ rest ∧
    source.drop (commentBody source).length = rest ∧
    GapBefore (scalar '#' :: commentBody source) rest := by
  obtain ⟨rest, hsplit, hbody, hend⟩ := commentBody_split source
  have hgap : GapBefore (scalar '#' :: (commentBody source ++ [])) rest := .comment hbody hend .nil
  rw [List.append_nil] at hgap
  refine ⟨rest, hsplit, ?_, hgap⟩
  generalize commentBody source = body at hsplit
  rw [hsplit, List.drop_left]

/-- A gap is passed over. -/
theorem tokensFrom_gap (h : GapBefore gap rest) : ∀ offset read,
    tokensFrom offset read (gap ++ rest) = tokensFrom (offset + gap.length) read rest := by
  induction h with
  | nil => intro offset read; rfl
  | blank hc _ ih =>
    intro offset read
    rw [List.cons_append, tokensFrom, if_pos hc, ih, List.length_cons]
    congr 1
    omega
  | @comment body gap rest hbody hend _ ih =>
    intro offset read
    have hcomment : commentBody (body ++ (gap ++ rest)) = body := commentBody_append hbody hend
    rw [List.cons_append, List.append_assoc, tokensFrom, if_neg (by decide), if_pos rfl]
    simp only [hcomment, List.drop_left, ih, List.length_cons, List.length_append]
    congr 1
    omega

/-! ## Cuts -/

/-- The token of a word that takes some characters from an offset on. -/
def Word.tokenAt (w : Word) (offset size : Nat) : Token :=
  { kind := w.1
    value := w.2
    span := some { start := offset, stop := offset + size } }

/-- The middle of three parts of a text. -/
theorem extract_middle (front text rest : List CodePoint) : (front ++ (text ++ rest)).extract
    front.length (front.length + text.length) = text := by
  rw [List.extract, List.drop_left, Nat.add_sub_cancel_left, List.take_left]

/-- A text from an offset on is the gaps and the texts of words of the tokens. -/
inductive Cut : Nat → List CodePoint → List Token → Prop
  /-- The last gap. -/
  | last {offset : Nat} {gap : List CodePoint} (h : GapBefore gap []) :
    Cut offset gap [Token.endAt (offset + gap.length)]
  /-- A gap and the text of a word. -/
  | token {offset : Nat} {gap text rest : List CodePoint} {w : Word} {tokens : List Token}
    (hgap : GapBefore gap (text ++ rest)) (htext : SpelledBefore text w rest)
    (hhead : ∀ c ∈ text.head?, opensGap c = false)
    (h : Cut (offset + gap.length + text.length) rest tokens) :
    Cut offset (gap ++ (text ++ rest)) (w.tokenAt (offset + gap.length) text.length :: tokens)

/-- A gap before a text that is cut makes its first gap longer. -/
theorem Cut.prepend (hgap : GapBefore gap rest) (h : Cut (offset + gap.length) rest tokens) :
    Cut offset (gap ++ rest) tokens := by
  cases h with
  | last hrest =>
    have hall : GapBefore (gap ++ rest) [] := .append (by rwa [List.append_nil]) hrest
    rw [Nat.add_assoc, ← List.length_append]
    exact .last hall
  | @token _ more text rest w tokens hmore htext hhead h =>
    have hall := GapBefore.append hgap hmore
    rw [Nat.add_assoc offset, ← List.length_append] at h ⊢
    rw [← List.append_assoc]
    exact .token hall htext hhead h

/-- A cut ends with the end of the text, and only there. -/
theorem Cut.ends (h : Cut offset source tokens) :
    ∃ us, tokens = us ++ [Token.endAt (offset + source.length)] ∧
      ∀ t ∈ us, t.kind ≠ .endOfInput := by
  induction h with
  | last => exact ⟨[], rfl, by simp⟩
  | @token offset gap text rest _ _ _ htext _ _ ih =>
    obtain ⟨us, rfl, hus⟩ := ih
    have hsize : offset + gap.length + text.length + rest.length =
        offset + (gap ++ (text ++ rest)).length := by
      simp only [List.length_append, Nat.add_assoc]
    exact ⟨_ :: us, by rw [hsize, List.cons_append], List.forall_mem_cons.2 ⟨htext.kind.1, hus⟩⟩

/-- The span so many characters further on. -/
def Span.moved (n : Nat) (s : Span) : Span :=
  { start := s.start + n
    stop := s.stop + n
    start_le_stop := Nat.add_le_add_right s.start_le_stop n }

/-- The token so many characters further on. -/
def Token.moved (n : Nat) (t : Token) : Token :=
  { t with span := t.span.map (·.moved n) }

@[simp] theorem Token.moved_endAt (n length : Nat) :
    (Token.endAt length).moved n = Token.endAt (length + n) := rfl

/-- A token that is moved is that of its word farther on. -/
theorem Word.moved_tokenAt (w : Word) (n offset size : Nat) :
    (w.tokenAt offset size).moved n = w.tokenAt (offset + n) size := by
  simp only [Word.tokenAt, Token.moved, Option.map_some, Span.moved, Nat.add_right_comm]

/-- A text is cut alike from every offset on. -/
theorem Cut.moved (h : Cut offset source tokens) (n : Nat) :
    Cut (offset + n) source (tokens.map (Token.moved n)) := by
  induction h with
  | @last offset gap hgap =>
    rw [List.map_singleton, Token.moved_endAt, Nat.add_right_comm]
    exact .last hgap
  | @token offset gap text rest w tokens hgap htext hhead _ ih =>
    rw [List.map_cons, Word.moved_tokenAt, Nat.add_right_comm]
    refine .token hgap htext hhead ?_
    rwa [Nat.add_right_comm _ n, Nat.add_right_comm _ n]

/-- The text of a word is read. -/
theorem tokensFrom_text (htext : SpelledBefore text w rest)
    (hhead : ∀ c ∈ text.head?, opensGap c = false) : tokensFrom offset read (text ++ rest) =
      tokensFrom (offset + text.length) (w.tokenAt offset text.length :: read) rest := by
  obtain ⟨c, cs, rfl, -⟩ := htext.head
  obtain ⟨l, hl, rfl, hsize⟩ := firstLexeme?_of_spelledBefore htext
  have hgap := hhead c rfl
  simp only [opensGap, Bool.or_eq_false_iff, decide_eq_false_iff_not] at hgap
  obtain ⟨hblank, hmark⟩ := hgap
  have hl : lexemeAt c (cs ++ rest) = .ok l := lexemeAt_eq_ok_iff.2 hl
  have hdrop : (c :: (cs ++ rest)).drop l.size = rest := by
    rw [hsize, ← List.cons_append, List.drop_left]
  rw [List.cons_append, tokensFrom, if_neg (by simp [hblank]), if_neg hmark, hl]
  simp only [hdrop, ← hsize]
  rfl

/-- The tokens of a cut are read. -/
theorem Cut.tokensFrom (h : Cut offset source tokens) :
    ∀ read, tokensFrom offset read source = .ok (read.reverse ++ tokens) := by
  induction h with
  | @last offset gap h =>
    intro read
    have hgap := tokensFrom_gap h offset read
    rw [List.append_nil] at hgap
    rw [hgap, ByteLayout.tokensFrom, List.reverse_cons]
  | token hgap htext hhead _ ih =>
    intro read
    rw [tokensFrom_gap hgap, tokensFrom_text htext hhead, ih, List.reverse_cons, List.append_assoc,
      List.singleton_append]

/-- The lexeme at a character that is no gap is a text of its word. -/
theorem exists_text_of_lexemeAt {l : Lexeme} (hc : opensGap c = false)
    (hl : lexemeAt c cs = .ok l) : ∃ text rest, c :: cs = text ++ rest ∧
      (c :: cs).drop text.length = rest ∧ SpelledBefore text l.word rest ∧
      (∀ x ∈ text.head?, opensGap x = false) ∧ text.length = l.size := by
  obtain ⟨text, rest, hsource, htext, hsize⟩ := lexemeAt_iff_standsIn.1 hl
  refine ⟨text, rest, hsource, by rw [hsource, List.drop_left], htext, ?_, hsize⟩
  obtain ⟨x, xs, rfl, -⟩ := htext.head
  obtain rfl : c = x := (List.cons.inj hsource).1
  simpa using hc

/-- What is read is the tokens of a cut. -/
theorem cut_of_tokensFrom (h : tokensFrom offset read source = .ok tokens) :
    ∃ cut, tokens = read.reverse ++ cut ∧ Cut offset source cut := by
  fun_induction ByteLayout.tokensFrom offset read source with
  | case1 offset read =>
    cases h
    exact ⟨[Token.endAt offset], List.reverse_cons, .last .nil⟩
  | case2 offset read c rest hblank ih =>
    obtain ⟨cut, htokens, hcut⟩ := ih h
    exact ⟨cut, htokens, .prepend (.blank hblank .nil) hcut⟩
  | case3 offset read rest comment hblank ih =>
    obtain ⟨cut, htokens, hcut⟩ := ih h
    obtain ⟨more, hsplit, hdrop, hgap⟩ := gapBefore_comment rest
    rw [hdrop, Nat.add_right_comm, Nat.add_assoc] at hcut
    rw [hsplit]
    exact ⟨cut, htokens, .prepend hgap hcut⟩
  | case4 => cases h
  | case5 offset read c rest hblank hmark l hl ih =>
    obtain ⟨cut, htokens, hcut⟩ := ih h
    obtain ⟨text, more, hsource, hdrop, htext, hhead, hsize⟩ :=
      exists_text_of_lexemeAt (by simp [opensGap, hblank, hmark]) hl
    rw [← hsize, hdrop] at hcut
    have htokens : tokens = read.reverse ++ l.token offset :: cut := by
      rw [htokens, List.reverse_cons, List.append_assoc, List.singleton_append]
    have hcut : Cut offset (text ++ more) (l.word.tokenAt offset text.length :: cut) :=
      .token .nil htext hhead hcut
    rw [hsize] at hcut
    exact ⟨l.token offset :: cut, htokens, hsource ▸ hcut⟩

/-- The tokens of a text are those of its cut. -/
theorem lex_iff_cut {source : Text} :
    lex source = .ok tokens ↔ Cut 0 source.toList tokens := by
  refine ⟨fun h => ?_, fun h => h.tokensFrom []⟩
  obtain ⟨cut, rfl, hcut⟩ := cut_of_tokensFrom h
  exact hcut

end ByteLayout
