import ByteLayout.Diagnostic.Style
import ByteLayout.Program.Reader
import ByteLayout.Proofs.Cutting
import ByteLayout.Proofs.Numerals

/-!
# Texts on one line

A text is on one line if no character of it ends a line. Numerals are, and quoted texts, in which
line ends are escapes; so are tokens as messages show them. `Problem.texts` are the texts that the
message of a cause shows as they are.

`Problem.singleLine_line`: the one-line style of a cause is on one line exactly if these texts are.
-/

namespace ByteLayout

/-- No character of the text ends a line. -/
def SingleLine (text : Text) : Prop :=
  ∀ c ∈ text.toList, isLineEnd c = false

instance (text : Text) : Decidable (SingleLine text) :=
  List.decidableBAll _ text.toList

/-- Texts put together are on one line if both are. -/
@[simp] theorem singleLine_append {a b : Text} :
    SingleLine (a ++ b) ↔ SingleLine a ∧ SingleLine b := by
  unfold SingleLine
  rw [Text.toList_append, List.forall_mem_append]

theorem singleLine_ofList {cs : List CodePoint} :
    SingleLine (Text.ofList cs) ↔ ∀ c ∈ cs, isLineEnd c = false := by
  rw [SingleLine, Text.toList_ofList]

/-- A character ends no line if it passes a test that line ends fail. -/
theorem isLineEnd_eq_false_of {p : CodePoint → Bool} (hp : p '\n' = false ∧ p '\r' = false)
    {c : CodePoint} (h : p c) : isLineEnd c = false := by
  rw [isLineEnd, Bool.or_eq_false_iff, decide_eq_false_iff_not, decide_eq_false_iff_not]
  refine ⟨?_, ?_⟩
  · rintro rfl
    exact absurd h (by simp [hp.1])
  · rintro rfl
    exact absurd h (by simp [hp.2])

namespace Text

/-! ## Numerals -/

/-- No digit ends a line. -/
theorem isLineEnd_naturalDigits (n : Nat) : ∀ c ∈ naturalDigits 10 n, isLineEnd c = false :=
  fun c hc => isLineEnd_eq_false_of (by decide) (isDecimalDigit_naturalDigits n c hc)

/-- Nor does one of an escape. -/
theorem isLineEnd_hexOfWidth (width n : Nat) : ∀ c ∈ hexOfWidth width n, isLineEnd c = false :=
  fun c hc => isLineEnd_eq_false_of (by decide) (isHexDigit_hexOfWidth width n c hc)

/-- A number is on one line. -/
@[simp] theorem singleLine_decimal (n : Int) : SingleLine (decimal n) := by
  rw [decimal, numeral, singleLine_ofList, numeralDigits]
  split
  · rw [List.forall_mem_cons]
    exact ⟨by decide, isLineEnd_naturalDigits _⟩
  · exact isLineEnd_naturalDigits _

/-- Commas between groups of digits end no line. -/
theorem isLineEnd_groupThousands {digits : List CodePoint} (h : ∀ c ∈ digits, isLineEnd c = false) :
    ∀ c ∈ groupThousands digits, isLineEnd c = false := by
  fun_induction groupThousands digits with
  | case1 a b c d rest ih =>
    simp only [List.forall_mem_cons] at h ih ⊢
    exact ⟨h.1, h.2.1, h.2.2.1, by decide, ih h.2.2.2⟩
  | case2 digits => exact h

/-- A number with commas is on one line. -/
@[simp] theorem singleLine_decimalGrouped (n : Int) : SingleLine (decimalGrouped n) := by
  have hdigits : ∀ c ∈ (groupThousands (naturalDigits 10 n.natAbs).reverse).reverse,
      isLineEnd c = false := by
    intro c hc
    refine isLineEnd_groupThousands (fun c hc => ?_) c (List.mem_reverse.1 hc)
    exact isLineEnd_naturalDigits _ c (List.mem_reverse.1 hc)
  rw [decimalGrouped, singleLine_ofList]
  split
  · rw [List.forall_mem_cons]
    exact ⟨by decide, hdigits⟩
  · exact hdigits

/-! ## Quoted texts -/

/-- No quotation mark ends a line. -/
theorem isLineEnd_quotationMark (text : List CodePoint) :
    isLineEnd (quotationMark text) = false := by
  unfold quotationMark
  split <;> decide

/-- An escape holds no line end. -/
theorem isLineEnd_escape (c : CodePoint) : ∀ x ∈ escape c, isLineEnd x = false := by
  have hmark : isLineEnd '\\' = false := rfl
  unfold escape
  split_ifs with hbyte hshort
  · simpa [hmark] using ⟨rfl, isLineEnd_hexOfWidth 2 c.toNat⟩
  · simpa [hmark] using ⟨rfl, isLineEnd_hexOfWidth 4 c.toNat⟩
  · simpa [hmark] using ⟨rfl, isLineEnd_hexOfWidth 8 c.toNat⟩

/-- A character is quoted without a line end. -/
theorem isLineEnd_quoteChar {mark : CodePoint} (hmark : isLineEnd mark = false) (c : CodePoint) :
    ∀ x ∈ quoteChar mark c, isLineEnd x = false := by
  have hescape : isLineEnd '\\' = false := rfl
  unfold quoteChar
  split_ifs with hmarked hfeed hreturn htab hshown
  · rcases hmarked with rfl | rfl <;> simp [hmark, hescape]
  · simp [isLineEnd]
  · simp [isLineEnd]
  · simp [isLineEnd]
  · simpa using isLineEnd_eq_false_of (by decide) hshown
  · exact isLineEnd_escape c

/-- A byte is quoted without a line end. -/
theorem isLineEnd_quoteByte {mark : CodePoint} (hmark : isLineEnd mark = false) (b : UInt8) :
    ∀ x ∈ quoteByte mark b, isLineEnd x = false := by
  unfold quoteByte
  split
  · exact isLineEnd_quoteChar hmark _
  · rw [List.forall_mem_cons, List.forall_mem_cons]
    exact ⟨rfl, rfl, isLineEnd_hexOfWidth 2 b.toNat⟩

/-- A quoted text is on one line, since line ends are escaped. -/
@[simp] theorem singleLine_quote (text : Text) : SingleLine (quote text) := by
  have hmark := isLineEnd_quotationMark text.toList
  rw [quote, singleLine_ofList, quoteChars]
  intro c hc
  simp only [List.mem_cons, List.mem_append, List.mem_flatMap, List.not_mem_nil, or_false] at hc
  obtain (rfl | ⟨x, -, hc⟩) | rfl := hc
  · exact hmark
  · exact isLineEnd_quoteChar hmark x c hc
  · exact hmark

/-- Quoted bytes are on one line. -/
@[simp] theorem singleLine_quoteBytes (bytes : List UInt8) : SingleLine (quoteBytes bytes) := by
  have hmark := isLineEnd_quotationMark (bytes.map fun b => Char.ofNat b.toNat)
  rw [quoteBytes, singleLine_ofList]
  intro c hc
  simp only [List.mem_cons, List.mem_append, List.mem_flatMap, List.not_mem_nil, or_false] at hc
  obtain rfl | (rfl | ⟨x, -, hc⟩) | rfl := hc
  · rfl
  · exact hmark
  · exact isLineEnd_quoteByte hmark x c hc
  · exact hmark

end Text

/-! ## Tokens -/

/-- The name of a kind is on one line. -/
theorem TokenKind.singleLine_name (kind : TokenKind) : SingleLine kind.name := by
  cases kind <;> decide

/-- What is shown of a value is on one line. -/
theorem TokenValue.singleLine_inspect {v : TokenValue} : ∀ text ∈ v.inspect?, SingleLine text := by
  rintro text htext
  cases v with
  | none => cases htext
  | text s | integer n | bytes bs =>
    cases htext
    simp
  | sized name size =>
    cases htext
    rw [Text.tuple_pair]
    simp +decide

/-- A token is shown on one line. -/
@[simp] theorem Token.singleLine_inspect (t : Token) : SingleLine t.inspect := by
  unfold inspect
  split
  · simp +decide [TokenKind.singleLine_name]
  · next text htext =>
    have := TokenValue.singleLine_inspect text htext
    simp +decide [TokenKind.singleLine_name, this]

/-! ## Diagnostics -/

/-- The name of a code is on one line. -/
theorem DiagnosticCode.singleLine_name (code : DiagnosticCode) : SingleLine code.name := by
  cases code <;> decide

/-- The one-line style is on one line if the message is. -/
theorem Diagnostic.singleLine_line {d : Diagnostic} : SingleLine d.line ↔ SingleLine d.message := by
  have hcode := d.code.singleLine_name
  unfold line
  split
  · simp +decide [hcode]
  · simp +decide [hcode]

namespace Problem

/-- The texts that the message of a cause shows as they are. -/
@[simp] def texts : Problem → List Text
  | unexpectedToken token next _ => [token, next]
  | duplicateAlias name group | fieldNotFound name group => [name, group]
  | unexpectedStatement statement stage => [statement, stage]
  | unsupportedAttribute attr kind => [kind, attr]
  | invalidAttributeValue _ usage problem => [usage, problem]
  | valueOutOfFormat attr _ format _ _ => [attr, format]
  | invalidParameterValue name problem => [name, problem]
  | integerExpected context received => [context, received]
  | duplicateGroup text | noCurrentField text | programNotFinished text | unknownTypeName text
  | unsupportedFieldType text | literalFieldNotImplemented text | attributesNotAllowed text
  | unknownDisplayFormat text | unsupportedParameter text | groupNotExpected text
  | groupMissing text => [text]
  | sourceTooLarge .. | defineRequired | singleGenerate | generatorMissing => []

/-- The texts that a cause shows are each on one line. -/
@[simp] def OnOneLine (p : Problem) : Prop :=
  ∀ text ∈ p.texts, SingleLine text

instance (p : Problem) : Decidable p.OnOneLine :=
  List.decidableBAll _ p.texts

/-- A message is on one line exactly if the texts in it are. -/
theorem singleLine_message {p : Problem} : SingleLine p.message ↔ p.OnOneLine := by
  unfold message
  cases p <;> simp +decide [interval]

/-- The one-line style of a cause is on one line exactly if the texts that it shows are. -/
theorem singleLine_line {p : Problem} : SingleLine p.diagnostic.line ↔ p.OnOneLine :=
  Diagnostic.singleLine_line.trans singleLine_message

end Problem

/-- Tokens that are no program are told of on one line. -/
theorem ParseError.onOneLine_atTokens (ts : List Token) (source : Option Text) :
    (atTokens ts source).problem.OnOneLine := by
  have hend : SingleLine endOfInputText := by decide
  cases ts with
  | nil => simpa [atTokens] using hend
  | cons t rest => cases rest <;> simp [atTokens, hend]

end ByteLayout
