import ByteLayout.Proofs.Cutting

/-!
# Texts that have no tokens

Only a number with too many digits keeps a text from having tokens. `CutTo source rest` says that a
text is gaps and the texts of words, in turn, up to where `rest` begins.

`lex_error_iff`: a text has no tokens exactly if it is cut to a number that is too long.
-/

namespace ByteLayout

open Lexeme

variable {gap source rest last : List CodePoint} {offset : Nat} {read : List Token} {e : DigitLimit}

/-- A text is gaps and the texts of words, and then another text. -/
inductive CutTo : List CodePoint → List CodePoint → Prop
  /-- A gap and the other text. -/
  | gap {gap last : List CodePoint} (h : GapBefore gap last) : CutTo (gap ++ last) last
  /-- A gap and the text of a word. -/
  | token {gap text rest last : List CodePoint} {w : Word} (hgap : GapBefore gap (text ++ rest))
    (htext : SpelledBefore text w rest) (hhead : ∀ c ∈ text.head?, opensGap c = false)
    (h : CutTo rest last) : CutTo (gap ++ (text ++ rest)) last

/-- A gap before a text that is cut makes its first gap longer. -/
theorem CutTo.prepend (hgap : GapBefore gap source) (h : CutTo source last) :
    CutTo (gap ++ source) last := by
  cases h with
  | gap hmore =>
    rw [← List.append_assoc]
    exact .gap (hgap.append hmore)
  | token hmore htext hhead h =>
    rw [← List.append_assoc]
    exact .token (hgap.append hmore) htext hhead h

/-- A number that is too long ends the reading. -/
theorem tokensFrom_of_startsOverlong (h : StartsOverlong e.digits rest) :
    tokensFrom offset read rest = .error e := by
  obtain ⟨c, cs, rfl, hgap⟩ := h.head
  simp only [opensGap, Bool.or_eq_false_iff, decide_eq_false_iff_not] at hgap
  obtain ⟨hblank, hmark⟩ := hgap
  rw [tokensFrom, if_neg (by simp [hblank]), if_neg hmark, lexemeAt_eq_error_iff.2 h]

/-- A text that is cut to a number that is too long is not read. -/
theorem CutTo.tokensFrom (h : CutTo source rest) (hrest : StartsOverlong e.digits rest) :
    ∀ offset read, tokensFrom offset read source = .error e := by
  induction h with
  | gap hgap =>
    intro offset read
    rw [tokensFrom_gap hgap, tokensFrom_of_startsOverlong hrest]
  | token hgap htext hhead _ ih =>
    intro offset read
    rw [tokensFrom_gap hgap, tokensFrom_text htext hhead, ih hrest]

/-- A text that is not read is cut to a number that is too long. -/
theorem cutTo_of_tokensFrom (h : tokensFrom offset read source = .error e) :
    ∃ rest, CutTo source rest ∧ StartsOverlong e.digits rest := by
  fun_induction ByteLayout.tokensFrom offset read source with
  | case1 => cases h
  | case2 offset read c source hblank ih =>
    obtain ⟨rest, hcut, hrest⟩ := ih h
    exact ⟨rest, .prepend (.blank hblank .nil) hcut, hrest⟩
  | case3 offset read source comment hblank ih =>
    obtain ⟨rest, hcut, hrest⟩ := ih h
    obtain ⟨more, hsplit, hdrop, hgap⟩ := gapBefore_comment source
    rw [hdrop] at hcut
    rw [hsplit]
    exact ⟨rest, .prepend hgap hcut, hrest⟩
  | case4 offset read c source hblank hmark e' he =>
    cases h
    exact ⟨_, .gap (.nil : GapBefore [] _), lexemeAt_eq_error_iff.1 he⟩
  | case5 offset read c source hblank hmark l hl ih =>
    obtain ⟨rest, hcut, hrest⟩ := ih h
    obtain ⟨text, more, hsource, hdrop, htext, hhead, hsize⟩ :=
      exists_text_of_lexemeAt (by simp [opensGap, hblank, hmark]) hl
    rw [← hsize, hdrop] at hcut
    rw [hsource]
    exact ⟨rest, .token .nil htext hhead hcut, hrest⟩

/-- A text has no tokens exactly if it is cut to a number with too many digits, whose number of
digits is then told; every other text has tokens. -/
theorem lex_error_iff {source : Text} :
    (∀ e, lex source = .error e ↔ ∃ rest, CutTo source.toList rest ∧ StartsOverlong e.digits rest) ∧
    ((∃ tokens, lex source = .ok tokens) ↔
      ∀ rest n, CutTo source.toList rest → ¬ StartsOverlong n rest) := by
  have hfails : ∀ e, lex source = .error e ↔
      ∃ rest, CutTo source.toList rest ∧ StartsOverlong e.digits rest :=
    fun e => ⟨cutTo_of_tokensFrom, fun ⟨_, hcut, hrest⟩ => hcut.tokensFrom hrest 0 []⟩
  refine ⟨hfails, ?_, fun h => ?_⟩
  · rintro ⟨tokens, hlex⟩ rest n hcut hrest
    have herror := (hfails ⟨n⟩).2 ⟨rest, hcut, hrest⟩
    rw [hlex] at herror
    cases herror
  · cases hlex : lex source with
    | ok tokens => exact ⟨tokens, rfl⟩
    | error e =>
      obtain ⟨rest, hcut, hrest⟩ := (hfails e).1 hlex
      exact absurd hrest (h rest e.digits hcut)

/-- Too many digits and nothing else. -/
theorem startsOverlong_replicate {n : Nat} (h : Text.digitLimit < n) :
    StartsOverlong n (List.replicate n (scalar '1')) := by
  have hne : List.replicate n (scalar '1') ≠ [] := by
    rw [Ne, List.replicate_eq_nil_iff]
    omega
  have hnumeral : IsNumeral [] (List.replicate n (scalar '1')) :=
    ⟨.inl rfl, hne, fun d hd => by rw [List.eq_of_mem_replicate hd]; rfl⟩
  have hlong : Text.digitLimit < (List.replicate n (scalar '1')).length := by
    rwa [List.length_replicate]
  have hstarts : StartsOverlong _ ([] ++ (List.replicate n (scalar '1') ++ [])) :=
    .integer hnumeral (by simp) hlong
  rwa [List.length_replicate, List.nil_append, List.append_nil] at hstarts

/-- One digit more than a number may have leaves a text without tokens. -/
theorem longNumber_unread :
    ¬ ∃ tokens, lex (Text.ofList (List.replicate 4301 (scalar '1'))) = .ok tokens := by
  have hlong : StartsOverlong (DigitLimit.mk 4301).digits (List.replicate 4301 (scalar '1')) :=
    startsOverlong_replicate (by decide)
  have herror : lex (Text.ofList (List.replicate 4301 (scalar '1'))) = .error ⟨4301⟩ := by
    rw [lex, Text.toList_ofList]
    exact tokensFrom_of_startsOverlong hlong
  rintro ⟨tokens, hlex⟩
  rw [herror] at hlex
  cases hlex

end ByteLayout
