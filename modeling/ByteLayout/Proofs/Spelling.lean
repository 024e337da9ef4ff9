import ByteLayout.Program.Writer
import ByteLayout.Proofs.Encoding
import ByteLayout.Proofs.LexemeText

/-!
# How words are spelled

`Reads text ws rest` says that a text is read as some words before another text. Words that a name
or a number spells are read only before a text that does not go on with them, which is a
`Delimited` one; the others are read before every text. There is a spelling for every identifier,
type name, reserved name and keyword, for the integers of 64 bits, for the texts that can be quoted
and for all sequences of bytes but the empty one.
-/

namespace ByteLayout

open Lexeme

variable {a b rest sign : List CodePoint} {c : CodePoint} {ws vs : List Word} {s : Text}

/-! ## Reading a part of a text -/

/-- A text is read as some words before another text. -/
def Reads (text : List CodePoint) (ws : List Word) (rest : List CodePoint) : Prop :=
  wordsOf (text ++ rest) = (wordsOf rest).map (ws ++ ·)

/-- No name and no number goes on into the text, and no name makes an array type with it. -/
def Delimited (rest : List CodePoint) : Prop :=
  ∀ c ∈ rest.head?, isNameChar c = false ∧ c ≠ '['

/-- What is neither part of a name nor an opening bracket delimits a name. -/
theorem Delimited.cons (h : isNameChar c = false) (hc : c ≠ '[') : Delimited (c :: rest) := by
  intro x hx
  obtain rfl := Option.some.inj hx
  exact ⟨h, hc⟩

theorem Reads.nil : Reads [] [] rest := by
  unfold Reads
  cases h : wordsOf rest with
  | error e => simp [h, Except.map]
  | ok ws => simp [h, Except.map]

/-- Parts are read one after the other. -/
theorem Reads.append (ha : Reads a ws (b ++ rest)) (hb : Reads b vs rest) :
    Reads (a ++ b) (ws ++ vs) rest := by
  unfold Reads at ha hb ⊢
  rw [List.append_assoc, ha, hb]
  cases wordsOf rest with
  | error e => rfl
  | ok us => simp [Except.map]

/-- A blank is read as nothing. -/
theorem Reads.blank (h : isBlank c) : Reads [c] [] rest := by
  have hskip : wordsOf (c :: rest) = wordsOf rest := by
    unfold wordsOf
    rw [lexemesOf, if_pos h]
  unfold Reads
  rw [List.singleton_append, hskip]
  exact Reads.nil

/-- What is spelled is read as its word. -/
theorem Reads.spelled {w : Word} (h : SpelledBefore a w rest) (hw : w.1 ≠ .illegal) :
    Reads a [w] rest := by
  obtain ⟨c, cs, rfl, hgap⟩ := h.head
  obtain ⟨l, hl, rfl, hsize⟩ := firstLexeme?_of_spelledBefore h
  have hgap := hgap hw
  simp only [opensGap, Bool.or_eq_false_iff, decide_eq_false_iff_not] at hgap
  obtain ⟨hblank, hmark⟩ := hgap
  have hl : lexemeAt c (cs ++ rest) = .ok l := lexemeAt_eq_ok_iff.2 hl
  unfold Reads wordsOf
  rw [List.cons_append, lexemesOf, if_neg (by simp [hblank]), if_neg hmark, hl]
  have hdrop : (c :: (cs ++ rest)).drop l.size = rest := by
    rw [hsize, ← List.cons_append, List.drop_left]
  simp only [hdrop]
  cases lexemesOf rest with
  | error e => rfl
  | ok ls => simp [Except.map]

/-! ## Marks -/

/-- A mark of one character that stands for itself. -/
theorem Reads.mark {kind : TokenKind} (h : (c, kind) ∈ marks) : Reads [c] [(kind, .none)] rest := by
  have hkind : ∀ p ∈ marks, p.2 ≠ .illegal := by decide
  exact .spelled (.mark h) (hkind _ h)

/-- An opening parenthesis is read, whatever follows. -/
theorem Reads.leftParen : Reads [scalar '('] [(.leftParen, .none)] rest :=
  .mark (by decide)

/-- So is a closing one. -/
theorem Reads.rightParen : Reads [scalar ')'] [(.rightParen, .none)] rest :=
  .mark (by decide)

/-- A comma is read, whatever follows. -/
theorem Reads.comma : Reads [scalar ','] [(.comma, .none)] rest :=
  .mark (by decide)

/-- An equals sign is read, whatever follows. -/
theorem Reads.assign : Reads [scalar '='] [(.assign, .none)] rest :=
  .mark (by decide)

/-- An arrow is read, whatever follows. -/
theorem Reads.rightArrow : Reads [scalar '-', scalar '>'] [(.rightArrow, .none)] rest :=
  .spelled .arrow (by decide)

/-- A space is passed over. -/
theorem Reads.space : Reads [scalar ' '] [] rest :=
  .blank (by decide)

/-- A line feed is passed over. -/
theorem Reads.lineEnd : Reads [scalar '\n'] [] rest :=
  .blank (by decide)

/-! ## Names -/

/-- A name is read as its word. -/
theorem Reads.name (h : IsName s) (hrest : Delimited rest) :
    Reads s.toList [nameWord s] rest := by
  have hsize : NoSize rest := by
    rintro sign digits ⟨-, more, rfl⟩
    exact absurd rfl (hrest '[' rfl).2
  have hkinds : ∀ kind ∈ nameKinds, kind ≠ .illegal := by decide
  exact .spelled (.name h (fun x hx => (hrest x hx).1) hsize) (hkinds _ (nameWord_mem s))

/-- An identifier is read as itself up to a delimiter. -/
theorem Reads.identifier (h : IsIdentifier s) (hrest : Delimited rest) :
    Reads s.toList [(.identifier, .text s)] rest := by
  rw [← nameWord_identifier h]
  exact .name h.isName hrest

/-- Only a capital has another small letter. -/
theorem toLower_eq_or_capital (c : CodePoint) :
    c.toLower = c ∨ scalar 'A' ≤ c ∧ c ≤ scalar 'Z' := by
  cases c with
  | surrogate index => exact .inl rfl
  | scalar c =>
    by_cases hcapital : 'A' ≤ c ∧ c ≤ 'Z'
    · exact .inr hcapital
    · exact .inl (congrArg scalar (dif_neg hcapital))

/-- Only a letter has the small letter of one. -/
theorem isLetter_toLower (h : isLetter c.toLower) : isLetter c := by
  rcases toLower_eq_or_capital c with hsame | hletter
  · rwa [hsame] at h
  · simp [isLetter, hletter]

/-- Only what may be part of a name has the small letter of such. -/
theorem isNameChar_toLower (h : isNameChar c.toLower) : isNameChar c := by
  rcases toLower_eq_or_capital c with hsame | hletter
  · rwa [hsame] at h
  · simp [isNameChar, isLetter, hletter]

/-- A word is a name if it is one in lower case. -/
theorem isName_of_lower (h : IsName (Text.lower s)) : IsName s := by
  obtain ⟨c, cs, hs, hc, hcs⟩ := h
  rw [Text.lower, Text.toList_ofList] at hs
  obtain ⟨d, ds, hd, rfl, rfl⟩ := List.map_eq_cons_iff.1 hs
  exact ⟨d, ds, hd, isLetter_toLower hc,
    fun x hx => isNameChar_toLower (hcs _ (List.mem_map_of_mem hx))⟩

/-- The text of a row of characters is a name if the first is a letter and all go on with one. -/
theorem isName_of_all (h : s.toList.head?.any isLetter) (hs : s.toList.all isNameChar) :
    IsName s := by
  cases hlist : s.toList with
  | nil =>
    rw [hlist] at h
    cases h
  | cons c cs =>
    rw [hlist] at h hs
    rw [List.all_cons, Bool.and_eq_true, List.all_eq_true] at hs
    exact ⟨c, cs, hlist, h, hs.2⟩

/-- The words of the language are names. -/
theorem isName_of_mem (h : s ∈ typeNames ∨ s ∈ reservedNames) : IsName s := by
  have hhead : ∀ s ∈ typeNames ++ reservedNames, s.toList.head?.any isLetter := by decide
  have hall : ∀ s ∈ typeNames ++ reservedNames, s.toList.all isNameChar := by decide
  rw [← List.mem_append] at h
  exact isName_of_all (hhead s h) (hall s h)

/-- A type is read as it is spelled, up to a delimiter. -/
theorem Reads.typeName (h : Text.lower s ∈ typeNames) (hrest : Delimited rest) :
    Reads s.toList [(.typeName, .text s)] rest := by
  rw [← nameWord_typeName h]
  exact .name (isName_of_lower (isName_of_mem (.inl h))) hrest

/-- A reserved name is read as it is spelled, up to a delimiter. -/
theorem Reads.reserved (h : Text.lower s ∈ reservedNames) (hrest : Delimited rest) :
    Reads s.toList [(.reserved, .text s)] rest := by
  rw [← nameWord_reserved h]
  exact .name (isName_of_lower (isName_of_mem (.inr h))) hrest

/-- A keyword is read before a text that does not go on with it. -/
theorem Reads.keyword {kind : TokenKind} (hs : nameWord s = (kind, .none))
    (h : s.toList.head?.any isLetter ∧ s.toList.all isNameChar) (hrest : Delimited rest) :
    Reads s.toList [(kind, .none)] rest := by
  rw [← hs]
  exact .name (isName_of_all h.1 h.2) hrest

/-! ## Integers -/

/-- A number of 64 bits keeps its value. -/
theorem wrap64_of_isSigned64 {n : Int} (h : IsSigned64 n) : Text.wrap64 n = n := by
  unfold IsSigned64 at h
  exact Int.bmod_eq_of_le (by simp only [UInt64.size]; omega) (by simp only [UInt64.size]; omega)

/-- A number of 64 bits is not too long to be written. -/
theorem not_tooLong_of_isSigned64 {n : Int} (h : IsSigned64 n) : ¬ Text.TooLong n := by
  unfold IsSigned64 at h
  exact Text.not_tooLong_of_natAbs_le (by omega)

/-- A number of 64 bits is not too long to be read. -/
theorem length_naturalDigits_of_isSigned64 {n : Int} (h : IsSigned64 n) :
    (Text.naturalDigits 10 n.natAbs).length ≤ Text.digitLimit :=
  Text.not_tooLong_iff.1 (not_tooLong_of_isSigned64 h)

/-- The digits of a number, with a sign or without, are a numeral. -/
theorem isNumeral_naturalDigits (n : Nat) (h : sign = [] ∨ sign = [scalar '-']) :
    IsNumeral sign (Text.naturalDigits 10 n) :=
  ⟨h, Text.naturalDigits_ne_nil 10 n, Text.isDecimalDigit_naturalDigits n⟩

/-- No digit is a character that no name goes on with. -/
theorem isDecimalDigit_of_isNameChar (h : isNameChar c = false) :
    Text.isDecimalDigit c = false := by
  simp only [isNameChar, Bool.or_eq_false_iff] at h
  exact h.1.2

/-- An integer of 64 bits is read from its numeral. -/
theorem Reads.integer {n : Int} (h : IsSigned64 n) (hrest : Delimited rest) :
    Reads (Text.decimal n).toList [(.integer, .integer n)] rest := by
  have hdigit : ∀ x ∈ rest.head?, Text.isDecimalDigit x = false := fun x hx =>
    isDecimalDigit_of_isNameChar (hrest x hx).1
  have hlen := length_naturalDigits_of_isSigned64 h
  have hvalue : Text.ofDigits 10 (Text.naturalDigits 10 n.natAbs) = n.natAbs :=
    Text.ofDigits_naturalDigits (by decide) (by decide) n.natAbs
  rw [Text.decimal, Text.numeral, Text.toList_ofList, Text.numeralDigits]
  split
  · next hn =>
    have hspelled := SpelledBefore.integer (isNumeral_naturalDigits n.natAbs (.inr rfl)) hlen hdigit
    rw [numeralValue, if_neg (by simp), hvalue, Int.ofNat_natAbs_of_nonpos (by omega), Int.neg_neg,
      wrap64_of_isSigned64 h] at hspelled
    exact .spelled hspelled (by simp)
  · next hn =>
    have hspelled := SpelledBefore.integer (isNumeral_naturalDigits n.natAbs (.inl rfl)) hlen hdigit
    rw [numeralValue, if_pos rfl, hvalue, Int.natAbs_of_nonneg (by omega),
      wrap64_of_isSigned64 h] at hspelled
    exact .spelled hspelled (by simp)

/-! ## Texts and bytes -/

/-- A text that can be quoted is read from between two quotation marks. -/
theorem Reads.text (h : IsQuotable s) :
    Reads (scalar '"' :: (s.toList ++ [scalar '"'])) [(.text, .text s)] rest :=
  .spelled (.text h) (by simp)

/-- A byte is read from its two digits. -/
theorem chunkByte?_hexByte (b : UInt8) : chunkByte? (Text.hexByte b) = some b := by
  have hdigits : (Text.hexByte b).all Text.isHexDigit := by
    rw [List.all_eq_true]
    exact Text.isHexDigit_hexOfWidth 2 b.toNat
  have hlen : (Text.hexByte b).length = 2 := Text.length_hexOfWidth 2 b.toNat
  have hne : Text.hexByte b ≠ [] := List.length_pos_iff.1 (by omega)
  have hfits : Text.ofDigits 16 (Text.hexByte b) ≤ 0xFF := by
    rw [Text.ofDigits_hexByte]
    exact Nat.le_of_lt_succ b.toNat_lt
  rw [chunkByte?, if_pos ⟨hne, hdigits, hfits⟩, Text.ofDigits_hexByte, UInt8.ofNat_toNat]

/-- The chunks of bytes are read as the bytes. -/
theorem mapM_chunkByte? (bs : List UInt8) : (bs.map Text.hexByte).mapM chunkByte? = some bs := by
  induction bs with
  | nil => rfl
  | cons b bs ih => simp [chunkByte?_hexByte, ih]

/-- What joined parts hold is in the joint or in a part. -/
theorem mem_intercalate {α : Type} {x : α} {joint : List α} {parts : List (List α)}
    (h : x ∈ joint.intercalate parts) : x ∈ joint ∨ ∃ part ∈ parts, x ∈ part := by
  induction parts with
  | nil => cases h
  | cons part parts ih =>
    cases parts with
    | nil => exact .inr ⟨part, List.mem_cons_self, by simpa using h⟩
    | cons next parts =>
      rw [List.intercalate_cons_cons] at h
      rcases List.mem_append.1 h with h | h
      · rcases List.mem_append.1 h with h | h
        · exact .inr ⟨part, List.mem_cons_self, h⟩
        · exact .inl h
      · rcases ih h with h | ⟨part', hpart, h⟩
        · exact .inl h
        · exact .inr ⟨part', List.mem_cons_of_mem _ hpart, h⟩

/-- Bytes are written as chunks with spaces between. -/
theorem toList_bytesText (bs : List UInt8) :
    (bytesText bs).toList = [scalar ' '].intercalate (bs.map Text.hexByte) := by
  rw [bytesText, Text.toList_intercalate, List.map_map]
  rfl

/-- The spelling of some bytes holds hexadecimal digits and spaces. -/
theorem notMem_bytesText {bs : List UInt8} (hspace : c ≠ ' ') (hc : Text.isHexDigit c = false) :
    c ∉ (bytesText bs).toList := by
  intro h
  rw [toList_bytesText] at h
  rcases mem_intercalate h with h | ⟨part, hpart, h⟩
  · exact hspace (List.mem_singleton.1 h)
  · obtain ⟨b, -, rfl⟩ := List.mem_map.1 hpart
    have := Text.isHexDigit_hexOfWidth 2 b.toNat c h
    rw [hc] at this
    cases this

/-- Cutting the spelling of some bytes at its spaces gives the digits of each byte. -/
theorem splitAtSpaces_bytesText {bs : List UInt8} (h : bs ≠ []) :
    splitAtSpaces (bytesText bs).toList = bs.map Text.hexByte := by
  have hspace : ∀ part ∈ bs.map Text.hexByte, scalar ' ' ∉ part := by
    intro part hpart hmem
    obtain ⟨b, -, rfl⟩ := List.mem_map.1 hpart
    have := Text.isHexDigit_hexOfWidth 2 b.toNat ' ' hmem
    revert this
    decide
  rw [toList_bytesText]
  exact List.splitOn_intercalate (scalar ' ') hspace (by simpa using h)

/-- Bytes are read from their spelling between two backticks. -/
theorem Reads.bytes {bs : List UInt8} (h : bs ≠ []) :
    Reads (scalar '\x60' :: ((bytesText bs).toList ++ [scalar '\x60']))
      [(.bytes, .bytes bs)] rest := by
  have hbytes : (splitAtSpaces (bytesText bs).toList).mapM chunkByte? = some bs := by
    rw [splitAtSpaces_bytesText h, mapM_chunkByte?]
  exact .spelled (.bytes (notMem_bytesText (by decide) (by decide)) hbytes) (by simp)

end ByteLayout
