import ByteLayout.CommandLine.Run
import ByteLayout.Proofs.LineEnds
import ByteLayout.Proofs.Undrawn
import ByteLayout.Proofs.Utf8

/-!
# The command and the stages

What the command writes for a file is what the stages generate from its text, if no draw is needed
for that, or the failure of a stage, if it can be told to a user (`Outcome.Shows`).

`run_shows`: the text is that of the file with line feeds. The text itself is shown as well where
the line ends do not count: no carriage return stands between quotation marks, and the limit on the
size does not tell line ends apart. For `returnText` the command writes another message.
-/

namespace ByteLayout.CommandLine

variable {σ τ : Type} {random : RandomSource σ} {random' : RandomSource τ} {state : σ} {state' : τ}
  {appendTerminator : Bool} {source : Text}

/-! ## Arguments -/

/-- The arguments that name a file, with or without the option for the terminator. -/
def fileArguments (path : String) (appendTerminator : Bool) : List String :=
  if appendTerminator then ["--append-term", path] else [path]

/-- A word that does not begin with a dash is no option. -/
theorem ofText?_of_head {path : String} (h : path.toList.head? ≠ some '-') :
    Word.ofText? path = some (.plain path) := by
  unfold Word.ofText?
  split
  · next heq => exact absurd (by rw [heq]; rfl) h
  · next heq => exact absurd (by rw [heq]; rfl) h
  · next heq => exact absurd (by rw [heq]; rfl) h
  · rfl

/-- The arguments ask for a run on the file. -/
theorem ofArguments_fileArguments {path : String} (h : path.toList.head? ≠ some '-') :
    Request.ofArguments (fileArguments path appendTerminator) =
      .run { input := path, appendTerminator } := by
  have hflag : Word.ofText? "--append-term" = some (.option .appendTerminator none) := by decide
  cases appendTerminator with
  | true => simp [fileArguments, Request.ofArguments, Word.ofTexts?, hflag, ofText?_of_head h,
      Gathered.takeWords, Gathered.setFlag, Flag.takesValue, Gathered.request]
  | false => simp [fileArguments, Request.ofArguments, Word.ofTexts?, ofText?_of_head h,
      Gathered.takeWords, Gathered.request]

/-! ## Records -/

/-- Reading and evaluation give no warning. -/
theorem level_of_mem_compile {limit : Int} {e : LogEvent} (h : e ∈ (compile source limit).2) :
    e.level = .debug := by
  unfold compile at h
  split at h
  · cases h
  · rcases List.mem_append.1 h with h | h
    · rw [List.mem_singleton.1 h]
      rfl
    · obtain ⟨taken, -, rfl⟩ := List.mem_map.1 h
      rfl

/-- A run that is not verbose shows nothing of reading and evaluation. -/
theorem shownRecords_compile (characters : Nat) (path : String) :
    shownRecords false (.readFile characters path :: (compile source).2) = [] := by
  have hnone : ∀ e ∈ LogEvent.readFile characters path :: (compile source).2,
      ¬ decide (e.level = .warning) := by
    intro e he
    rcases List.mem_cons.1 he with rfl | he
    · simp [LogEvent.level]
    · rw [level_of_mem_compile he]
      decide
  rw [shownRecords, if_neg Bool.false_ne_true, List.filter_eq_nil_iff.2 hnone]
  rfl

/-! ## Outcomes -/

/-- The outcome is the message that was generated, if no draw was made for it, and the failure, if
it can be told to a user. -/
structure Outcome.Shows (o : Outcome) (generated : Except StageError (List UInt8) × Session τ) :
    Prop where
  /-- The message is written. -/
  message : ∀ bytes, generated.1 = .ok bytes → generated.2.draws = [] →
    o.code = 0 ∧ o.output = bytes
  /-- The failure is told and nothing is written. -/
  failure : ∀ e report, generated.1 = .error e → e.report? = some report →
    o.code = 1 ∧ o.output = [] ∧ o.errors = ["[-] Error: " ++ report.message]

/-- A failure is shown as what is told of it. -/
theorem Outcome.Shows.of_told {o : Outcome} {e e' : StageError} {s s' : Session τ}
    (h : o.Shows (.error e', s')) (htold : e'.told? = e.told?) : o.Shows (.error e, s) where
  message bytes hbytes := by cases hbytes
  failure f report hf hreport := by
    cases hf
    rw [StageError.told?, StageError.told?, hreport, Option.map_some] at htold
    obtain ⟨report', hreport', hmessage⟩ := Option.map_eq_some_iff.1 htold
    rw [← hmessage]
    exact h.failure e' report' rfl hreport'

/-- The content that is written from a text is read as the text with line feeds. -/
theorem inputText_utf8Chars (source : String) :
    inputText (Text.utf8Chars source.toList) = .ok (withLineFeeds source) := by
  rw [inputText, Text.decodeUtf8_utf8Chars]
  rfl

/-- What a run that is not verbose writes for the content of a text. -/
theorem run_utf8Chars (source path : String) :
    run random state { input := path, appendTerminator } (.ok (Text.utf8Chars source.toList)) =
      Outcome.ofResult false
        (.readFile (withLineFeeds source).length (normalisePath path) ::
          (outputOf random state { input := path, appendTerminator } (withLineFeeds source)).2)
        (outputOf random state { input := path, appendTerminator } (withLineFeeds source)).1 := by
  unfold run
  rw [show (Except.ok (Text.utf8Chars source.toList) : Except ReadError (List UInt8)).bind
    inputText = inputText (Text.utf8Chars source.toList) from rfl, inputText_utf8Chars]

/-- A message that no draw was made for is generated from every source. -/
theorem generateFromText_message {bytes : List UInt8}
    (h : (generateFromText random' appendTerminator source { state := state' }).1 = .ok bytes)
    (hdraws : (generateFromText random' appendTerminator source { state := state' }).2.draws = [])
    (random : RandomSource σ) (state : σ) :
    (generateFromText random appendTerminator source { state }).1 = .ok bytes := by
  unfold generateFromText at h hdraws ⊢
  generalize compile source = compiled at h hdraws ⊢
  obtain ⟨_ | env, log⟩ := compiled
  · cases h
  · have hsame := generate_undrawn hdraws random { state, log := [] ++ log }
    dsimp only at h ⊢
    rw [hsame]
    exact h

/-- A failure that can be told is that of reading, of evaluation, or of an environment that has
nothing to generate from, whatever the source. -/
theorem generateFromText_failure {e : StageError} {report : Report}
    (h : (generateFromText random' appendTerminator source { state := state' }).1 = .error e)
    (hreport : e.report? = some report) (random : RandomSource σ) (state : σ) :
    generateFromText random appendTerminator source { state } =
      (.error e, { state, log := (compile source).2 }) := by
  unfold generateFromText at h ⊢
  generalize compile source = compiled at h ⊢
  obtain ⟨_ | env, log⟩ := compiled
  · cases h
    rfl
  · dsimp only at h ⊢
    cases hgenerated : (generate random' appendTerminator env
      { state := state', log := [] ++ log }).1 with
    | ok bytes =>
      rw [hgenerated] at h
      cases h
    | error cause =>
      rw [hgenerated] at h
      cases h
      cases cause with
      | problem p =>
        rw [generate_problem hgenerated random]
        rfl
      | capacity | emission => cases hreport

/-! ## The command -/

/-- A run on the content of a text shows what is generated from the text with line feeds. -/
theorem run_shows_withLineFeeds (random : RandomSource σ) (state : σ) (random' : RandomSource τ)
    (state' : τ) (source path : String) (appendTerminator : Bool) :
    (run random state { input := path, appendTerminator }
      (.ok (Text.utf8Chars source.toList))).Shows
      (generateFromText random' appendTerminator (withLineFeeds source) { state := state' }) := by
  rw [run_utf8Chars]
  unfold outputOf
  dsimp only
  constructor
  · intro bytes hbytes hdraws
    have hmessage := generateFromText_message hbytes hdraws random state
    generalize generateFromText random appendTerminator (withLineFeeds source) { state } = made
      at hmessage ⊢
    obtain ⟨result, s⟩ := made
    obtain rfl : result = .ok bytes := hmessage
    exact ⟨rfl, rfl⟩
  · intro e report he hreport
    rw [generateFromText_failure he hreport random state]
    refine ⟨rfl, rfl, ?_⟩
    show shownRecords false _ ++ shownFailure false e = _
    rw [shownRecords_compile, shownFailure, hreport]
    rfl

/-- Where line ends do not count, what is shown of the text with line feeds is shown of the text. -/
theorem Outcome.Shows.of_withLineFeeds {o : Outcome} (hreturn : QuotesNoReturn source)
    (hsize : SizesAlike source)
    (h : o.Shows (generateFromText random appendTerminator (withLineFeeds source) { state })) :
    o.Shows (generateFromText random appendTerminator source { state }) := by
  unfold generateFromText at h ⊢
  rcases compile_withLineFeeds hreturn hsize with hsame | ⟨e, e', he, he', htold⟩
  · rwa [hsame] at h
  · rw [he'] at h
    rw [he]
    exact h.of_told htold

/-- The arguments ask for a run, and the run on the content of a text shows what is generated from
the text with line feeds, and what is generated from the text where line ends do not count. -/
theorem run_shows (random : RandomSource σ) (state : σ) (random' : RandomSource τ) (state' : τ)
    (source : String) {path : String} (hpath : path.toList.head? ≠ some '-')
    (appendTerminator : Bool) :
    ∃ o, Request.ofArguments (fileArguments path appendTerminator) = .run o ∧
      (run random state o (.ok (Text.utf8Chars source.toList))).Shows
        (generateFromText random' appendTerminator (withLineFeeds source) { state := state' }) ∧
      (QuotesNoReturn source → SizesAlike source →
        (run random state o (.ok (Text.utf8Chars source.toList))).Shows
          (generateFromText random' appendTerminator source { state := state' })) := by
  have hshows := run_shows_withLineFeeds random state random' state' source path appendTerminator
  refine ⟨_, ofArguments_fileArguments hpath, hshows, ?_⟩
  intro hreturn hsize
  exact hshows.of_withLineFeeds hreturn hsize

/-- All line ends, none of them between quotation marks. -/
def manyLineEnds : String :=
  "# x\r\nDEFINE a\r\"xy\" GENERATE a\nTERM = LF\r\n"

theorem quotesNoReturn_manyLineEnds : QuotesNoReturn manyLineEnds := by
  have hwords : (lex manyLineEnds).map (List.map Token.word) =
      .ok [(.defineWord, .none), (.identifier, .text "a"), (.text, .text "xy"),
        (.generateWord, .none), (.identifier, .text "a"), (.identifier, .text "TERM"),
        (.assign, .none), (.reserved, .text "LF"), Word.endOfInput] := by decide +kernel
  intro tokens text htokens hmem
  rw [htokens] at hwords
  rw [Except.ok.inj hwords] at hmem
  simp only [List.mem_cons, Prod.mk.injEq, TokenValue.text.injEq, Word.endOfInput, reduceCtorEq,
    false_and, true_and, List.not_mem_nil, or_false, false_or] at hmem
  subst hmem
  decide

/-- The command writes for `manyLineEnds` what is generated from it. -/
theorem manyLineEnds_shown :
    ("a".toList.head? ≠ some '-' ∧ QuotesNoReturn manyLineEnds ∧ SizesAlike manyLineEnds) ∧
    ∃ o, Request.ofArguments (fileArguments "a" true) = .run o ∧
      (run (Script.source) .greatest o (.ok (Text.utf8Chars manyLineEnds.toList))).code = 0 ∧
      (run (Script.source) .greatest o (.ok (Text.utf8Chars manyLineEnds.toList))).output =
        [0x78, 0x79, 0x0A] := by
  have hpath : "a".toList.head? ≠ some '-' := by decide
  have hsize : SizesAlike manyLineEnds := .inl (by decide +kernel)
  have hgenerated : (generateFromText Script.source true manyLineEnds { state := .least }).1 =
      .ok [0x78, 0x79, 0x0A] := by decide +kernel
  have hdraws : (generateFromText Script.source true manyLineEnds { state := .least }).2.draws =
      [] := by decide +kernel
  obtain ⟨o, ho, -, hshows⟩ := run_shows Script.source .greatest Script.source .least
    manyLineEnds hpath true
  exact ⟨⟨hpath, quotesNoReturn_manyLineEnds, hsize⟩, o, ho,
    (hshows quotesNoReturn_manyLineEnds hsize).message _ hgenerated hdraws⟩

/-- A carriage return between quotation marks. -/
def returnText : String :=
  "DEFINE a \"x\ry\" GENERATE a"

/-- The command does not write for `returnText` what is generated from it. -/
theorem returnText_not_shown :
    ¬ (run Script.source .least { input := "a" }
        (.ok (Text.utf8Chars returnText.toList))).Shows
      (generateFromText Script.source false returnText { state := .least }) := by
  have hgenerated : (generateFromText Script.source false returnText { state := .least }).1 =
      .ok [0x78, 0x0D, 0x79] := by decide +kernel
  have hdraws : (generateFromText Script.source false returnText { state := .least }).2.draws =
      [] := by decide +kernel
  have hwritten : (run Script.source .least { input := "a" }
      (.ok (Text.utf8Chars returnText.toList))).output = [0x78, 0x0A, 0x79] := by decide +kernel
  intro h
  rw [(h.message _ hgenerated hdraws).2] at hwritten
  cases hwritten

end ByteLayout.CommandLine
