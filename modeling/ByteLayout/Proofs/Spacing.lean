import ByteLayout.Proofs.Cutting
import ByteLayout.Proofs.RoundTrip

/-!
# Spacing does not matter

A text with other gaps between the same lexemes has the same tokens. The lexemes are told apart by
what follows them, and new gaps only ever let something follow less closely: `Loosened new old` says
that a text goes on as another one does up to its first gap. The text of a word stays that of the
word before a loosened text, unless it is a mark that nothing closes, which a new comment may close.

`lex_respaced`: the tokens of a respaced text are the same, and so is the program.
-/

namespace ByteLayout

open Lexeme

variable {c : CodePoint} {cs gap text body rest source new old : List CodePoint} {offset : Nat}
  {w : Word} {s : Text} {tokens : List Token}

/-! ## Loosened texts -/

/-- The new text goes on as the old one up to its first gap. -/
def Loosened (new old : List CodePoint) : Prop :=
  new.takeWhile (!opensGap ·) <+: old

/-- A text that is empty or begins with a gap is a loosened form of every text. -/
theorem Loosened.of_head (h : ∀ x ∈ new.head?, opensGap x) : Loosened new old := by
  unfold Loosened
  cases new with
  | nil => exact List.nil_prefix
  | cons c cs =>
    rw [List.takeWhile_cons_of_neg (by simp [h c rfl])]
    exact List.nil_prefix

/-- The same text may stand before both, and may hold gaps of its own. -/
theorem Loosened.append (h : Loosened new old) (text : List CodePoint) :
    Loosened (text ++ new) (text ++ old) := by
  induction text with
  | nil => exact h
  | cons c cs ih =>
    unfold Loosened at ih ⊢
    rw [List.cons_append, List.cons_append, List.takeWhile_cons]
    split
    · exact List.cons_prefix_cons.2 ⟨rfl, ih⟩
    · exact List.nil_prefix

/-- A gap before a loosened text may be another one, if there still is one. -/
theorem Loosened.gap_append {gap' : List CodePoint} (h : Loosened new old)
    (hgap : GapBefore gap' rest) (hkept : gap' = [] → gap = []) :
    Loosened (gap' ++ new) (gap ++ old) := by
  by_cases hempty : gap' = []
  · rw [hempty, hkept hempty]
    exact h
  · refine .of_head ?_
    rw [List.head?_append_of_ne_nil _ hempty]
    exact hgap.head

/-- What is not a gap and begins the new text begins the old one. -/
theorem Loosened.begins (h : Loosened new old) (htext : ∀ x ∈ text, opensGap x = false)
    (hnew : text <+: new) : text <+: old := by
  obtain ⟨more, rfl⟩ := hnew
  unfold Loosened at h
  rw [List.takeWhile_append_of_pos (by simpa using htext)] at h
  exact (List.prefix_append _ _).trans h

/-- A gap that is loosened begins as it did or opens a gap. -/
theorem Loosened.head (h : Loosened new old) {x : CodePoint} (hx : x ∈ new.head?) :
    opensGap x ∨ x ∈ old.head? := by
  obtain ⟨more, rfl⟩ := List.head?_eq_some_iff.1 hx
  cases hgap : opensGap x with
  | true => exact .inl rfl
  | false =>
    have hold : [x] <+: old := h.begins (by simpa using hgap) ⟨more, rfl⟩
    obtain ⟨more, rfl⟩ := hold
    exact .inr rfl

/-- A condition that gaps meet and that the old text begins with holds at the front of the new. -/
theorem Loosened.forall_head {p : CodePoint → Prop} (h : Loosened new old)
    (hgap : ∀ x, opensGap x → p x) (hold : ∀ x ∈ old.head?, p x) : ∀ x ∈ new.head?, p x :=
  fun x hx => (h.head hx).elim (hgap x) (hold x)

/-! ## Words before loosened texts -/

/-- No digit opens a gap. -/
theorem isDecimalDigit_of_opensGap (h : opensGap c) : Text.isDecimalDigit c = false :=
  isDecimalDigit_of_isNameChar (isNameChar_of_opensGap h)

/-- A size in brackets holds no gap. -/
theorem Loosened.noSize (h : Loosened new old) (hold : NoSize old) : NoSize new := by
  rintro sign digits ⟨hnumeral, more, rfl⟩
  have hgap : ∀ x ∈ scalar '[' :: (sign ++ (digits ++ [scalar ']'])), opensGap x = false := by
    have hbracket : opensGap '[' = false ∧ opensGap ']' = false ∧ opensGap '-' = false := by decide
    have hdigits : ∀ d ∈ digits, opensGap d = false := fun d hd =>
      opensGap_of_isNameChar (by simp [isNameChar, hnumeral.isDigit d hd])
    have hsign : ∀ x ∈ sign, opensGap x = false := by
      rcases hnumeral.sign with rfl | rfl
      · simp
      · simpa using hbracket.2.2
    simp only [List.forall_mem_cons, List.forall_mem_append]
    exact ⟨hbracket.1, hsign, hdigits, hbracket.2.1, by simp⟩
  obtain ⟨more', hold'⟩ := h.begins hgap ⟨more, by simp⟩
  exact hold sign digits ⟨hnumeral, more', by rw [← hold']; simp⟩

/-- The word is a mark that opens something and that nothing closes. -/
def Word.IsUnclosed (w : Word) : Prop :=
  w = (.illegal, .text "\"") ∨ w = (.illegal, .text "\x60")

/-- The text of a word stays that of the word before a loosened text. -/
theorem SpelledBefore.loosened (h : SpelledBefore text w old) (hw : ¬ w.IsUnclosed)
    (hnew : Loosened new old) : SpelledBefore text w new := by
  cases h with
  | text h => exact .text h
  | bytes hmark h => exact .bytes hmark h
  | typeArray hs h hlen hsize => exact .typeArray hs h hlen hsize
  | name h hrest hsize =>
    exact .name h (hnew.forall_head (fun _ => isNameChar_of_opensGap) hrest) (hnew.noSize hsize)
  | integer h hlen hrest =>
    exact .integer h hlen (hnew.forall_head (fun _ => isDecimalDigit_of_opensGap) hrest)
  | arrow => exact .arrow
  | minus hrest =>
    refine .minus (hnew.forall_head (fun x hx => ⟨isDecimalDigit_of_opensGap hx, ?_⟩) hrest)
    rintro rfl
    revert hx
    decide
  | mark h => exact .mark h
  | odd h => exact .odd h
  | quote => exact absurd (.inl rfl) hw
  | tick => exact absurd (.inr rfl) hw

/-! ## Respaced texts -/

/-- A text with the lexemes of the tokens of another text, in order, and gaps of its own. Before a
lexeme that did not touch the one that ended at `before` there is a gap; before the first lexeme and
after the last one there may be any. -/
inductive Respaced (source : List CodePoint) : Option Nat → List Token → List CodePoint → Prop
  /-- A gap after the last lexeme. -/
  | last {before : Option Nat} {t : Token} {gap : List CodePoint} (ht : t.kind = .endOfInput)
    (hgap : GapBefore gap []) : Respaced source before [t] gap
  /-- A gap and a lexeme. -/
  | lexeme {before : Option Nat} {t : Token} {s : Span} {tokens : List Token}
    {gap rest : List CodePoint} (ht : t.span = some s)
    (hgap : GapBefore gap (source.extract s.start s.stop ++ rest))
    (hkept : ∀ stop ∈ before, stop < s.start → gap ≠ [])
    (h : Respaced source (some s.stop) tokens rest) :
    Respaced source before (t :: tokens) (gap ++ (source.extract s.start s.stop ++ rest))

/-- A text that respaces what stands from an offset on has the words of its tokens. -/
theorem Cut.respaced (h : Cut offset old tokens) (hw : ∀ t ∈ tokens, ¬ t.word.IsUnclosed) :
    ∀ front before new, front.length = offset → (∀ stop ∈ before, stop = offset) →
      Respaced (front ++ old) before tokens new → (before.isSome → Loosened new old) ∧
        ∀ offset', ∃ cut, Cut offset' new cut ∧ cut.map Token.word = tokens.map Token.word := by
  induction h with
  | @last offset gap hgap =>
    rintro front before new rfl hbefore hnew
    cases hnew with
    | lexeme _ _ _ h => cases h
    | last _ hgap' =>
      exact ⟨fun _ => .of_head hgap'.head, fun offset' => ⟨_, .last hgap', rfl⟩⟩
  | @token offset gap text rest w tokens hgap htext hhead _ ih =>
    rintro front before new rfl hbefore hnew
    rw [List.forall_mem_cons] at hw
    cases hnew with
    | last ht => exact absurd ht htext.kind.1
    | @lexeme _ _ s _ gap' new ht hgap' hkept h =>
      obtain rfl : _ = s := Option.some.inj ht
      have hextract : (front ++ (gap ++ (text ++ rest))).extract (front.length + gap.length)
          (front.length + gap.length + text.length) = text := by
        rw [← List.append_assoc, ← List.length_append, extract_middle]
      simp only [hextract] at hgap' ⊢
      have hfront : front ++ (gap ++ (text ++ rest)) = front ++ gap ++ text ++ rest := by simp
      rw [hfront] at h
      obtain ⟨hloose, hcut⟩ := ih hw.2 (front ++ gap ++ text) _ new (by simp [Nat.add_assoc])
        (by simp) h
      have htext' : SpelledBefore text w new := htext.loosened hw.1 (hloose rfl)
      refine ⟨fun hbefore' => ((hloose rfl).append text).gap_append hgap' fun hempty => ?_,
        fun offset' => ?_⟩
      · obtain ⟨stop, rfl⟩ := Option.isSome_iff_exists.1 hbefore'
        obtain rfl := hbefore stop rfl
        -- The lexemes would touch only if there was no gap between them before.
        by_contra hgap
        exact hkept _ rfl (Nat.lt_add_of_pos_right (List.length_pos_iff.2 hgap)) hempty
      · obtain ⟨cut, hcut, hwords⟩ := hcut (offset' + gap'.length + text.length)
        refine ⟨_, .token hgap' htext' hhead hcut, ?_⟩
        rw [List.map_cons, List.map_cons, hwords]
        rfl

/-! ## Texts -/

/-- Tokens with the same words agree. -/
theorem forall₂_agrees {us vs : List Token} (h : vs.map Token.word = us.map Token.word) :
    List.Forall₂ (fun t t' => t.agrees t') us vs := by
  have hwords : List.Forall₂ (fun t t' => Token.word t = Token.word t') us vs := by
    rw [← List.forall₂_map_right_iff, ← List.forall₂_map_left_iff, h]
    exact List.forall₂_same.2 fun _ _ => rfl
  exact hwords.imp fun t t' hword => Token.agrees_iff.2 (Prod.mk.inj hword)

/-- A text with other gaps between the same lexemes has tokens that agree with those of the text. It
is read as a program if the text is, and as the same one. -/
theorem lex_respaced {source text : Text} (h : lex source = .ok tokens)
    (hclosed : ∀ t ∈ tokens, ¬ t.word.IsUnclosed)
    (hspaced : Respaced source.toList none tokens text.toList) :
    (∃ tokens', lex text = .ok tokens' ∧ List.Forall₂ (fun t t' => t.agrees t') tokens tokens') ∧
      ∀ p : Program, p.ReadFrom text ↔ p.ReadFrom source := by
  obtain ⟨-, hcut⟩ := (lex_iff_cut.1 h).respaced hclosed [] none text.toList rfl (by simp) hspaced
  obtain ⟨tokens', hcut, hwords⟩ := hcut 0
  have htext : lex text = .ok tokens' := lex_iff_cut.2 hcut
  refine ⟨⟨tokens', htext, forall₂_agrees hwords⟩, fun p => ⟨?_, ?_⟩⟩
  · rintro ⟨us, hus, hparse⟩
    rw [htext] at hus
    cases hus
    exact ⟨tokens, h, parse_of_words hparse hwords.symm⟩
  · rintro ⟨us, hus, hparse⟩
    rw [h] at hus
    cases hus
    exact ⟨tokens', htext, parse_of_words hparse hwords⟩

/-- The tokens of a parameter without gaps. -/
def closeParameter : List Token :=
  [{ kind := .identifier, value := .text "a", span := some { start := 0, stop := 1 } },
    { kind := .assign, span := some { start := 1, stop := 2 } },
    { kind := .integer, value := .integer 1, span := some { start := 2, stop := 3 } },
    Token.endAt 3]

/-- A parameter without blanks is the same with blanks and a comment. -/
theorem closeParameter_respaced :
    (lex "a=1" = .ok closeParameter ∧ (∀ t ∈ closeParameter, ¬ t.word.IsUnclosed) ∧
      Respaced ("a=1" : Text).toList none closeParameter (" a = # one\n1" : Text).toList) ∧
    (∃ tokens', lex " a = # one\n1" = .ok tokens' ∧
      List.Forall₂ (fun t t' => t.agrees t') closeParameter tokens') ∧
    ∀ p : Program, p.ReadFrom " a = # one\n1" ↔ p.ReadFrom "a=1" := by
  have hlex : lex "a=1" = .ok closeParameter := by decide +kernel
  have hclosed : ∀ t ∈ closeParameter, ¬ t.word.IsUnclosed := by
    simp [closeParameter, Word.IsUnclosed, Token.word, Token.endAt]
  have hspaced : Respaced ("a=1" : Text).toList none closeParameter
      (" a = # one\n1" : Text).toList := by
    have hspace : ∀ {rest}, GapBefore [scalar ' '] rest := .blank (by decide) .nil
    have hcomment : ∀ {rest}, GapBefore
        (scalar ' ' :: scalar '#' :: ((" one" : Text).toList ++ [scalar '\n'])) rest :=
      .blank (by decide) (.comment (by simp [isLineEnd]) (by simp [isLineEnd])
        (.blank (by decide) .nil))
    have hend : Respaced "a=1".toList (some 3) (closeParameter.drop 3) "".toList := .last rfl .nil
    have hone : Respaced "a=1".toList (some 2) (closeParameter.drop 2) " # one\n1".toList :=
      @Respaced.lexeme _ _ _ ⟨2, 3, _⟩ _ _ _ rfl hcomment (by simp) hend
    have hmark : Respaced "a=1".toList (some 1) (closeParameter.drop 1) " = # one\n1".toList :=
      @Respaced.lexeme _ _ _ ⟨1, 2, _⟩ _ _ _ rfl hspace (by simp) hone
    exact @Respaced.lexeme _ _ _ ⟨0, 1, _⟩ _ _ _ rfl hspace (by simp) hmark
  exact ⟨⟨hlex, hclosed, hspaced⟩, lex_respaced hlex hclosed hspaced⟩

end ByteLayout
