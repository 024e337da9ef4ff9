import ByteLayout.Compilation
import ByteLayout.Proofs.Places
import ByteLayout.Proofs.VariantTokens

/-!
# Texts with line feeds

A text with every line end made a line feed is a variant of the text (`varied_normaliseNewlines`),
so its tokens are the same up to the line ends in texts between quotation marks.

`compile_withLineFeeds`: if no carriage return stands in such a text, and the limit on the size does
not count the line ends apart, the environment is the same, or there is none for the same cause.
-/

namespace ByteLayout

variable {cs : List CodePoint} {source : Text}

/-! ## Characters -/

/-- What making line feeds does to characters. -/
theorem exists_normalised (read cs : List CodePoint) :
    ∃ new, Text.normaliseNewlinesFrom read cs = read.reverse ++ new ∧ Varied false true cs new ∧
      new.length ≤ cs.length ∧ (¬ [scalar '\r', scalar '\n'] <:+: cs → new.length = cs.length) := by
  fun_induction Text.normaliseNewlinesFrom read cs with
  | case1 read => exact ⟨[], (List.append_nil _).symm, .nil, le_rfl, fun _ => rfl⟩
  | case2 read rest ih =>
    obtain ⟨new, hnew, hvaried, hle, -⟩ := ih
    refine ⟨scalar '\n' :: new, by simpa using hnew, .lineEnd rfl hvaried, ?_, fun hpair => ?_⟩
    · simp only [List.length_cons]
      omega
    · exact absurd ⟨[], rest, rfl⟩ hpair
  | case3 read rest _ ih =>
    obtain ⟨new, hnew, hvaried, hle, heq⟩ := ih
    refine ⟨scalar '\n' :: new, by simpa using hnew, .char (.inr (.inr ⟨rfl, rfl, rfl⟩)) hvaried,
      Nat.succ_le_succ hle, fun hpair => congrArg Nat.succ (heq fun h => hpair ?_)⟩
    exact h.trans (List.suffix_cons (scalar '\r') rest).isInfix
  | case4 read c rest _ _ ih =>
    obtain ⟨new, hnew, hvaried, hle, heq⟩ := ih
    refine ⟨c :: new, by simpa using hnew, .char (.inl rfl) hvaried, Nat.succ_le_succ hle,
      fun hpair => congrArg Nat.succ (heq fun h => hpair ?_)⟩
    exact h.trans (List.suffix_cons c rest).isInfix

/-- A text with line feeds is a variant of the text. -/
theorem varied_normaliseNewlines (cs : List CodePoint) :
    Varied false true cs (Text.normaliseNewlines cs) := by
  obtain ⟨new, hnew, hvaried, -⟩ := exists_normalised [] cs
  rwa [Text.normaliseNewlines, hnew]

/-- Line feeds take no more characters than the line ends. -/
theorem length_normaliseNewlines_le (cs : List CodePoint) :
    (Text.normaliseNewlines cs).length ≤ cs.length := by
  obtain ⟨new, hnew, -, hle, -⟩ := exists_normalised [] cs
  rwa [Text.normaliseNewlines, hnew]

/-- Without pairs at line ends no character gets lost. -/
theorem length_normaliseNewlines (h : ¬ [scalar '\r', scalar '\n'] <:+: cs) :
    (Text.normaliseNewlines cs).length = cs.length := by
  obtain ⟨new, hnew, -, -, heq⟩ := exists_normalised [] cs
  rw [Text.normaliseNewlines, hnew]
  exact heq h

/-! ## Tokens -/

/-- A text with every line end made a line feed. -/
def withLineFeeds (source : Text) : Text :=
  Text.ofList (Text.normaliseNewlines source.toList)

/-- No text between quotation marks has a carriage return. -/
def QuotesNoReturn (source : Text) : Prop :=
  ∀ tokens text, lex source = .ok tokens → (.text, .text text) ∈ tokens.map Token.word →
    scalar '\r' ∉ text.toList

/-- The limit on the size of a text does not tell line ends apart. -/
def SizesAlike (source : Text) : Prop :=
  source.length ≤ defaultSourceLimit ∨ ¬ [scalar '\r', scalar '\n'] <:+: source.toList

/-- A word that varies in line ends only is the same, unless a carriage return is in its text. -/
theorem Word.Varies.eq {lines : Bool} {w w' : Word} (h : Word.Varies false lines w w')
    (hreturn : ∀ text, w = (.text, .text text) → scalar '\r' ∉ text.toList) : w = w' := by
  cases h with
  | same => rfl
  | spelling _ h => rw [Text.toList_inj.1 h.eq_of_none]
  | sized h => rw [Text.toList_inj.1 h.eq_of_none]
  | literal h => rw [Text.toList_inj.1 (h.keepLines (hreturn _ rfl)).eq_of_none]

/-- The words of a text with line feeds. -/
theorem lex_withLineFeeds (hreturn : QuotesNoReturn source) :
    (∃ ts us, lex source = .ok ts ∧ lex (withLineFeeds source) = .ok us ∧
        us.map Token.word = ts.map Token.word) ∨
      ∃ e, lex source = .error e ∧ lex (withLineFeeds source) = .error e := by
  have hvaried : Varied false true source.toList (withLineFeeds source).toList := by
    rw [withLineFeeds, Text.toList_ofList]
    exact varied_normaliseNewlines _
  refine (lex_varied hvaried).imp_left ?_
  rintro ⟨ts, us, hts, hus, hvaries⟩
  refine ⟨ts, us, hts, hus, Eq.symm ?_⟩
  have hquotes := fun text => hreturn ts text hts
  clear hts hus
  induction hvaries with
  | nil => rfl
  | cons hword _ ih =>
    rw [List.map_cons, List.map_cons, ih fun text h => hquotes text (List.mem_cons_of_mem _ h)]
    congr 1
    exact hword.word.eq fun text h => hquotes text (h ▸ List.mem_cons_self)

/-! ## Programs -/

/-- The message of a failure that can be told to a user. -/
def StageError.told? (e : StageError) : Option Text :=
  e.report?.map Report.message

/-- A text and the text with line feeds exceed the limit both or none, and by the same size. -/
theorem sourceSize_withLineFeeds (h : SizesAlike source) :
    (withLineFeeds source).length = source.length ∨
      (source.length ≤ defaultSourceLimit ∧
        (withLineFeeds source).length ≤ defaultSourceLimit) := by
  have hlength : (withLineFeeds source).length =
      (Text.normaliseNewlines source.toList).length := by
    rw [withLineFeeds, Text.length_ofList]
  have hle : (Text.normaliseNewlines source.toList).length ≤ source.length :=
    length_normaliseNewlines_le source.toList
  refine h.symm.imp (fun hpair => ?_) fun hsize => ⟨hsize, ?_⟩
  · rw [hlength, length_normaliseNewlines hpair, Text.length_toList]
  · rw [hlength]
    omega

/-- The text with line feeds makes the same program of as many tokens, or neither text makes one,
for the same cause. -/
theorem readProgram_withLineFeeds (hreturn : QuotesNoReturn source) (hsize : SizesAlike source) :
    (∃ ts us p, readProgram source = .ok (ts, p) ∧
        readProgram (withLineFeeds source) = .ok (us, p) ∧ us.length = ts.length) ∨
      ∃ e e', readProgram source = .error e ∧ readProgram (withLineFeeds source) = .error e' ∧
        e'.told? = e.told? := by
  unfold readProgram parseSource
  by_cases hlimit : (0 : Int) < defaultSourceLimit ∧ defaultSourceLimit < source.length
  · have hsame : (withLineFeeds source).length = source.length :=
      (sourceSize_withLineFeeds hsize).resolve_right fun h => by omega
    rw [hsame, if_pos hlimit, if_pos hlimit]
    exact .inr ⟨_, _, rfl, rfl, rfl⟩
  have hlimit' : ¬ ((0 : Int) < defaultSourceLimit ∧
      defaultSourceLimit < (withLineFeeds source).length) := by
    rcases sourceSize_withLineFeeds hsize with hsame | ⟨-, hle⟩
    · rwa [hsame]
    · omega
  rw [if_neg hlimit, if_neg hlimit']
  rcases lex_withLineFeeds hreturn with ⟨ts, us, hts, hus, hwords⟩ | ⟨e, he, he'⟩
  · rw [hts, hus]
    dsimp only
    have hlength : us.length = ts.length := by simpa using congrArg List.length hwords
    rcases parse_congr hwords.symm (some source) (some (withLineFeeds source)) with
      ⟨p, hp, hp'⟩ | ⟨e, e', he, he', hmessage⟩
    · rw [hp, hp']
      exact .inl ⟨ts, us, p, rfl, rfl, hlength⟩
    · rw [he, he']
      exact .inr ⟨_, _, rfl, rfl, congrArg some hmessage.symm⟩
  · rw [he, he']
    exact .inr ⟨_, _, rfl, rfl, rfl⟩

/-- The text with line feeds has the same environment and the same records, or neither text has an
environment, for the same cause. -/
theorem compile_withLineFeeds (hreturn : QuotesNoReturn source) (hsize : SizesAlike source) :
    compile (withLineFeeds source) = compile source ∨
      ∃ e e', compile source = (.error e, []) ∧ compile (withLineFeeds source) = (.error e', []) ∧
        e'.told? = e.told? := by
  unfold compile
  rcases readProgram_withLineFeeds hreturn hsize with
    ⟨ts, us, p, hp, hp', hlength⟩ | ⟨e, e', he, he', htold⟩
  · rw [hp, hp']
    left
    simp only [readingLog, hlength]
  · rw [he, he']
    exact .inr ⟨e, e', rfl, rfl, htold⟩

end ByteLayout
