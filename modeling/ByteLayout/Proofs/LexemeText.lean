import ByteLayout.Proofs.Recognition

/-!
# The text of a word

What a word looks like in a text, and what may follow it there: `SpelledBefore text word rest` says
it class by class. Texts and bytes between marks, array types, arrows and single marks are read
before every text; a name, a number and a minus sign only before a text that does not go on with
them, and a quotation mark or a backtick is a word of its own only before a text that does not close
it.

`lexemeAt_iff_standsIn`: the lexeme at a place is the one whose text stands there.
`lexemeAt_eq_error_iff`: there is one, unless a number with too many digits is there.
-/

namespace ByteLayout

open Lexeme TokenClass

variable {c : CodePoint} {cs source text rest body sign digits : List CodePoint} {s : Text}
  {w : Word} {l : Lexeme}

/-! ## Words -/

/-- The character begins what stands between lexemes: a blank or a comment. -/
def opensGap (c : CodePoint) : Bool :=
  isBlank c || c = '#'

/-- No name and no number begins or goes on with a gap. -/
theorem isNameChar_of_opensGap (h : opensGap c) : isNameChar c = false := by
  simp only [opensGap, isBlank, Bool.or_eq_true, decide_eq_true_eq] at h
  rcases h with (((rfl | rfl) | rfl) | rfl) | rfl
  all_goals decide

/-- What may be part of a name opens no gap. -/
theorem opensGap_of_isNameChar (h : isNameChar c) : opensGap c = false := by
  rw [Bool.eq_false_iff]
  intro hgap
  rw [isNameChar_of_opensGap hgap] at h
  cases h

/-- The characters that are a token each, and its kind. -/
def marks : List (CodePoint × TokenKind) :=
  [('=', .assign), ('+', .add), ('*', .multiply), ('(', .leftParen), (')', .rightParen),
    (',', .comma), ('$', .reference), (':', .colon)]

/-- The character begins a token of no other class. -/
structure IsOdd (c : CodePoint) : Prop where
  /-- It begins no name. -/
  notLetter : isLetter c = false
  /-- It begins no number. -/
  notDigit : Text.isDecimalDigit c = false
  /-- It is no mark. -/
  notMark : c ∉ scalar '"' :: scalar '\x60' :: scalar '-' :: marks.map (·.1)

/-- The text is that of the word where another text follows it. -/
inductive SpelledBefore : List CodePoint → Word → List CodePoint → Prop
  /-- A text between quotation marks. -/
  | text {s : Text} {rest : List CodePoint} (h : IsQuotable s) :
    SpelledBefore (scalar '"' :: (s.toList ++ [scalar '"'])) (.text, .text s) rest
  /-- Hexadecimal chunks between backticks. -/
  | bytes {body rest : List CodePoint} {bytes : List UInt8} (hmark : scalar '\x60' ∉ body)
    (h : (splitAtSpaces body).mapM chunkByte? = some bytes) :
    SpelledBefore (scalar '\x60' :: (body ++ [scalar '\x60'])) (.bytes, .bytes bytes) rest
  /-- A name and a size in brackets. -/
  | typeArray {s : Text} {sign digits rest : List CodePoint} (hs : IsName s)
    (h : IsNumeral sign digits) (hlen : digits.length ≤ Text.digitLimit)
    (hsize : Text.ofDigits 10 digits ≤ 0xFFFFFFFF) :
    SpelledBefore (s.toList ++ scalar '[' :: (sign ++ (digits ++ [scalar ']'])))
      (.typeArray, .sized s (Text.ofDigits 10 digits)) rest
  /-- A name. -/
  | name {s : Text} {rest : List CodePoint} (h : IsName s)
    (hrest : ∀ x ∈ rest.head?, isNameChar x = false) (hsize : NoSize rest) :
    SpelledBefore s.toList (nameWord s) rest
  /-- A number. -/
  | integer {sign digits rest : List CodePoint} (h : IsNumeral sign digits)
    (hlen : digits.length ≤ Text.digitLimit)
    (hrest : ∀ x ∈ rest.head?, Text.isDecimalDigit x = false) :
    SpelledBefore (sign ++ digits) (.integer, .integer (numeralValue sign digits)) rest
  /-- An arrow. -/
  | arrow {rest : List CodePoint} : SpelledBefore [scalar '-', scalar '>'] (.rightArrow, .none) rest
  /-- A minus sign. -/
  | minus {rest : List CodePoint}
    (hrest : ∀ x ∈ rest.head?, Text.isDecimalDigit x = false ∧ x ≠ '>') :
    SpelledBefore [scalar '-'] (.subtract, .none) rest
  /-- A mark that stands for itself. -/
  | mark {c : CodePoint} {kind : TokenKind} {rest : List CodePoint} (h : (c, kind) ∈ marks) :
    SpelledBefore [c] (kind, .none) rest
  /-- A character that begins nothing. -/
  | odd {c : CodePoint} {rest : List CodePoint} (h : IsOdd c) :
    SpelledBefore [c] (.illegal, .text (Text.singleton c)) rest
  /-- A quotation mark that begins no text. -/
  | quote {rest : List CodePoint} (h : bodyAt? '"' (scalar '"' :: rest) = none) :
    SpelledBefore [scalar '"'] (.illegal, .text (Text.singleton '"')) rest
  /-- A backtick that begins no bytes. -/
  | tick {rest : List CodePoint} (h : bytes? (scalar '\x60' :: rest) = none) :
    SpelledBefore [scalar '\x60'] (.illegal, .text (Text.singleton '\x60')) rest

/-- The kinds of the words that names spell. -/
def nameKinds : List TokenKind :=
  [.typeName, .reserved, .identifier, .asWord, .defineWord, .fromWord, .generateWord, .whereWord,
    .withWord]

/-- The word of a name is of one of the kinds of names. -/
theorem nameWord_mem (s : Text) : (nameWord s).1 ∈ nameKinds := by
  have hkeyword : ∀ kind ∈ keyword? (Text.lower s), kind ∈ nameKinds := by
    intro kind hkind
    unfold keyword? at hkind
    repeat' split at hkind
    all_goals cases hkind
    all_goals decide
  unfold nameWord
  split
  · simp [nameKinds]
  split
  · simp [nameKinds]
  split
  · next kind h => exact hkeyword kind h
  · simp [nameKinds]

/-- No text spells the end of the input, or a comment. -/
theorem SpelledBefore.kind (h : SpelledBefore text w rest) :
    w.1 ≠ .endOfInput ∧ w.1 ≠ .comment := by
  have hnames : ∀ kind ∈ nameKinds, kind ≠ .endOfInput ∧ kind ≠ .comment := by decide
  have hmarks : ∀ p ∈ marks, p.2 ≠ .endOfInput ∧ p.2 ≠ .comment := by decide
  cases h with
  | name => exact hnames _ (nameWord_mem _)
  | mark h => exact hmarks _ h
  | text | bytes | typeArray | integer | arrow | minus | odd | quote | tick => simp

/-- A name begins with no gap. -/
theorem head_of_isName (hs : IsName s) : ∃ c cs, s.toList = c :: cs ∧ opensGap c = false := by
  obtain ⟨c, cs, hs, hc, -⟩ := hs
  exact ⟨c, cs, hs, opensGap_of_isNameChar (by simp [isNameChar, hc])⟩

/-- A numeral begins with no gap. -/
theorem IsNumeral.head (h : IsNumeral sign digits) :
    ∃ c cs, sign ++ digits = c :: cs ∧ opensGap c = false := by
  rcases h.sign with rfl | rfl
  · obtain ⟨d, ds, rfl⟩ := List.exists_cons_of_ne_nil h.ne_nil
    have hd : isNameChar d := by simp [isNameChar, h.isDigit d List.mem_cons_self]
    exact ⟨d, ds, rfl, opensGap_of_isNameChar hd⟩
  · exact ⟨'-', digits, rfl, by decide⟩

/-- No text of a word is empty, and only an illegal word looks like a gap. -/
theorem SpelledBefore.head (h : SpelledBefore text w rest) :
    ∃ c cs, text = c :: cs ∧ (w.1 ≠ .illegal → opensGap c = false) := by
  have hmarks : ∀ p ∈ marks, opensGap p.1 = false := by decide
  cases h with
  | text | bytes | arrow | minus | quote | tick => exact ⟨_, _, rfl, fun _ => by decide⟩
  | typeArray hs =>
    obtain ⟨c, cs, hs, hc⟩ := head_of_isName hs
    exact ⟨c, _, by rw [hs, List.cons_append], fun _ => hc⟩
  | name hs =>
    obtain ⟨c, cs, hs, hc⟩ := head_of_isName hs
    exact ⟨c, cs, hs, fun _ => hc⟩
  | integer h =>
    obtain ⟨c, cs, hlist, hc⟩ := h.head
    exact ⟨c, cs, hlist, fun _ => hc⟩
  | mark h => exact ⟨_, _, rfl, fun _ => hmarks _ h⟩
  | odd => exact ⟨_, _, rfl, fun h => absurd rfl h⟩

/-- The lexeme stands at the front of the text. -/
def Lexeme.StandsIn (l : Lexeme) (source : List CodePoint) : Prop :=
  ∃ text rest, source = text ++ rest ∧ SpelledBefore text l.word rest ∧ text.length = l.size

/-! ## What the classes answer -/

/-- The lexeme of a text stands where it is found. -/
theorem standsIn_of_text? (h : text? source = some l) : l.StandsIn source := by
  obtain ⟨body, hbody, rfl⟩ := Option.map_eq_some_iff.1 h
  obtain ⟨rest, rfl⟩ := bodyAt?_split hbody
  have hs : IsQuotable (Text.ofList body) := wellFormed_text? h
  refine ⟨scalar '"' :: (body ++ [scalar '"']), rest, by simp, ?_, by simp⟩
  have htext : SpelledBefore _ _ rest := .text hs
  rwa [Text.toList_ofList] at htext

/-- So does that of bytes. -/
theorem standsIn_of_bytes? (h : bytes? source = some l) : l.StandsIn source := by
  obtain ⟨body, hbody, h⟩ := Option.bind_eq_some_iff.1 h
  obtain ⟨bytes, hbytes, rfl⟩ := Option.map_eq_some_iff.1 h
  obtain ⟨rest, rfl⟩ := bodyAt?_split hbody
  exact ⟨scalar '\x60' :: (body ++ [scalar '\x60']), rest, by simp,
    .bytes (bodyAt?_eq_some hbody).2 hbytes, by simp⟩

/-- So does that of an array. -/
theorem standsIn_of_typeArray? (h : typeArray? source = .ok (some l)) : l.StandsIn source := by
  obtain ⟨s, sign, digits, more, rfl, hs, hnumeral, hlen, hfits, hword, hsize⟩ := typeArray?_split h
  refine ⟨_, more, by simp, ?_, hsize.symm⟩
  rw [hword]
  exact .typeArray hs hnumeral hlen hfits

/-- So does that of a word, if no array begins there. -/
theorem standsIn_of_word? (harray : typeArray? source = .ok none) (h : word? source = some l) :
    l.StandsIn source := by
  obtain ⟨s, rest, rfl, hs, hrest, hword, hsize⟩ := word?_split h
  refine ⟨s.toList, rest, rfl, ?_, hsize.symm⟩
  rw [hword]
  exact .name hs hrest ((typeArray?_eq_none_iff hs hrest).1 harray)

/-- So does that of an integer. -/
theorem standsIn_of_integer? (h : integer? source = .ok (some l)) : l.StandsIn source := by
  obtain ⟨sign, digits, rest, rfl, hnumeral, hlen, hrest, hword, hsize⟩ := integer?_split h
  refine ⟨sign ++ digits, rest, by simp, ?_, hsize.symm⟩
  rw [hword]
  exact .integer hnumeral hlen hrest

/-- So does that of an operator, if no integer begins there. -/
theorem standsIn_of_operator? (hinteger : integer? source = .ok none)
    (h : operator? source = some l) : l.StandsIn source := by
  unfold operator? at h
  split at h
  · next rest =>
    cases h
    exact ⟨[scalar '-', scalar '>'], rest, rfl, .arrow, rfl⟩
  · next rest =>
    cases h
    exact ⟨[scalar '='], rest, rfl, .mark (by decide), rfl⟩
  · next rest =>
    cases h
    exact ⟨[scalar '+'], rest, rfl, .mark (by decide), rfl⟩
  · next rest harrow =>
    cases h
    refine ⟨[scalar '-'], rest, rfl,
      .minus fun x hx => ⟨integer?_eq_none_iff.1 hinteger x hx, ?_⟩, rfl⟩
    rintro rfl
    obtain ⟨tail, rfl⟩ := List.head?_eq_some_iff.1 hx
    exact harrow tail rfl
  · next rest =>
    cases h
    exact ⟨[scalar '*'], rest, rfl, .mark (by decide), rfl⟩
  · cases h

/-- So does that of a punctuation mark. -/
theorem standsIn_of_punctuation? (h : punctuation? source = some l) : l.StandsIn source := by
  unfold punctuation? at h
  split at h
  case h_6 => cases h
  all_goals
    cases h
    exact ⟨[_], _, rfl, .mark (by decide), rfl⟩

/-- Where no class but the last answers, the character begins nothing. -/
theorem standsIn_illegal (htext : text? (c :: cs) = none) (hbytes : bytes? (c :: cs) = none)
    (hword : word? (c :: cs) = none) (hinteger : integer? (c :: cs) = .ok none)
    (hoperator : operator? (c :: cs) = none) (hpunctuation : punctuation? (c :: cs) = none) :
    (illegal c).StandsIn (c :: cs) := by
  refine ⟨[c], cs, rfl, ?_, rfl⟩
  by_cases hquote : c = '"'
  · subst hquote
    exact .quote (Option.map_eq_none_iff.1 htext)
  by_cases htick : c = '\x60'
  · subst htick
    exact .tick hbytes
  have hminus : c ≠ '-' := by
    rintro rfl
    unfold operator? at hoperator
    split at hoperator <;> simp_all
  refine .odd ⟨?_, ?_, ?_⟩
  · cases hletter : isLetter c with
    | false => rfl
    | true =>
      have hname : nameAt? (c :: cs) = some (c :: cs.takeWhile isNameChar) := by
        rw [nameAt?, if_pos hletter]
      obtain ⟨s, rest, -, hsource, hs, hrest⟩ := nameAt?_split hname
      obtain ⟨l, hl, -, -⟩ := word?_append hs hrest
      rw [← hsource, hword] at hl
      cases hl
  · have hdigit := integer?_eq_none_iff.1 hinteger
    rw [signAt_of_ne hminus] at hdigit
    exact hdigit c rfl
  · intro hin
    simp only [marks, List.map_cons, List.map_nil, List.mem_cons, List.not_mem_nil, or_false] at hin
    rcases hin with rfl | rfl | rfl | rfl | rfl | rfl | rfl | rfl | rfl | rfl | rfl
    all_goals simp_all [operator?, punctuation?]

/-! ## The class that answers first -/

/-- What some classes answer is the answer of the first one, unless it has none. -/
theorem firstLexeme?_cons_iff {cls : TokenClass} {classes : List TokenClass}
    {answer : Except DigitLimit (Option Lexeme)} :
    firstLexeme? (cls :: classes) source = answer ↔
      cls.lexeme? source = answer ∧ answer ≠ .ok none ∨
        cls.lexeme? source = .ok none ∧ firstLexeme? classes source = answer := by
  rw [firstLexeme?]
  split
  · next e h => simpa [h] using fun h' => by simp [← h']
  · next l h => simpa [h] using fun h' => by simp [← h']
  · next h => simpa [h] using fun h' hne => absurd h'.symm hne

/-- The first lexeme of all classes stands where it is found. -/
theorem standsIn_of_firstLexeme? (h : firstLexeme? all source = .ok (some l)) :
    l.StandsIn source := by
  simp only [all, firstLexeme?_cons_iff, lexeme?, Except.ok.injEq, ne_eq, reduceCtorEq,
    not_false_eq_true, and_true] at h
  rcases h with h | ⟨htext, h | ⟨hbytes, h | ⟨harray, h | ⟨hword, h | ⟨hinteger, h | ⟨hoperator, h |
    ⟨hpunctuation, h | ⟨-, h⟩⟩⟩⟩⟩⟩⟩⟩
  · exact standsIn_of_text? h
  · exact standsIn_of_bytes? h
  · exact standsIn_of_typeArray? h
  · exact standsIn_of_word? harray h
  · exact standsIn_of_integer? h
  · exact standsIn_of_operator? hinteger h
  · exact standsIn_of_punctuation? h
  · cases source with
    | nil => cases h
    | cons c cs =>
      cases h
      exact standsIn_illegal htext hbytes hword hinteger hoperator hpunctuation
  · cases h

/-- A class that does not match leaves the place to the next ones. -/
theorem firstLexeme?_cons_of_none {cls : TokenClass} {classes : List TokenClass}
    (h : cls.lexeme? source = .ok none) :
    firstLexeme? (cls :: classes) source = firstLexeme? classes source := by
  rw [firstLexeme?, h]

/-- A class that matches is the first one. -/
theorem firstLexeme?_cons_of_some {cls : TokenClass} {classes : List TokenClass}
    (h : cls.lexeme? source = .ok (some l)) :
    firstLexeme? (cls :: classes) source = .ok (some l) := by
  rw [firstLexeme?, h]

/-- Where a character opens nothing the first two classes have no answer. -/
theorem firstLexeme?_all_of_ne (hquote : c ≠ '"') (htick : c ≠ '\x60') :
    firstLexeme? all (c :: cs) =
      firstLexeme? [typeArray, word, integer, operator, punctuation, illegal] (c :: cs) := by
  have htext : lexeme? text (c :: cs) = .ok none := by
    rw [lexeme?, text?, bodyAt?_of_ne hquote, Option.map_none]
  have hbytes : lexeme? bytes (c :: cs) = .ok none := by
    rw [lexeme?, bytes?, bodyAt?_of_ne htick, Option.bind_none]
  rw [all, firstLexeme?_cons_of_none htext, firstLexeme?_cons_of_none hbytes]

/-- Where a character opens nothing and is no letter the first four classes have no answer. -/
theorem firstLexeme?_all_of_not_letter (hquote : c ≠ '"') (htick : c ≠ '\x60')
    (hletter : isLetter c = false) : firstLexeme? all (c :: cs) =
      firstLexeme? [integer, operator, punctuation, illegal] (c :: cs) := by
  have harray : lexeme? typeArray (c :: cs) = .ok none := typeArray?_of_not_letter hletter
  have hword : lexeme? word (c :: cs) = .ok none := by
    rw [lexeme?, word?_of_not_letter hletter]
  rw [firstLexeme?_all_of_ne hquote htick, firstLexeme?_cons_of_none harray,
    firstLexeme?_cons_of_none hword]

/-- A name before another text begins with a letter. -/
theorem firstLexeme?_all_of_isName (hs : IsName s) : firstLexeme? all (s.toList ++ rest) =
    firstLexeme? [typeArray, word, integer, operator, punctuation, illegal] (s.toList ++ rest) := by
  obtain ⟨c, cs, hlist, hc, -⟩ := hs
  rw [hlist]
  exact firstLexeme?_all_of_ne (ne_of_isLetter hc (by decide)) (ne_of_isLetter hc (by decide))

/-- A numeral before another text begins with a digit or a minus sign. -/
theorem firstLexeme?_all_of_isNumeral (h : IsNumeral sign digits) :
    firstLexeme? all (sign ++ (digits ++ rest)) =
      firstLexeme? [integer, operator, punctuation, illegal] (sign ++ (digits ++ rest)) := by
  rcases h.sign with rfl | rfl
  · obtain ⟨d, ds, rfl⟩ := List.exists_cons_of_ne_nil h.ne_nil
    have hd := h.isDigit d List.mem_cons_self
    exact firstLexeme?_all_of_not_letter (ne_of_isDecimalDigit hd (by decide))
      (ne_of_isDecimalDigit hd (by decide)) (isLetter_of_isDecimalDigit hd)
  · exact firstLexeme?_all_of_not_letter (by decide) (by decide) (by decide)

/-- Bytes stand between two backticks. -/
theorem bytes?_append {bytes : List UInt8} (hmark : scalar '\x60' ∉ body)
    (h : (splitAtSpaces body).mapM chunkByte? = some bytes) :
    bytes? (scalar '\x60' :: (body ++ scalar '\x60' :: rest)) =
      some (.mk .bytes (.bytes bytes) (body.length + 2) (Nat.succ_pos _)) := by
  have hne : body ≠ [] := by
    rintro rfl
    cases h
  rw [bytes?, bodyAt?_append hne hmark, Option.bind_some, h, Option.map_some]

/-- A minus sign alone is an operator. -/
theorem operator?_minus (h : ∀ x ∈ rest.head?, x ≠ '>') :
    operator? (scalar '-' :: rest) = some ⟨.subtract, .none, 1, Nat.one_pos⟩ := by
  cases rest with
  | nil => rfl
  | cons x rest =>
    have hx : x ≠ '>' := h x rfl
    unfold operator?
    split
    · next heq =>
      cases heq
      exact absurd rfl hx
    all_goals simp_all

/-- A character that begins nothing else is an illegal lexeme. -/
theorem IsOdd.firstLexeme? (h : IsOdd c) :
    TokenClass.firstLexeme? all (c :: rest) = .ok (some (Lexeme.illegal c)) := by
  have hne : ∀ x ∈ scalar '"' :: scalar '\x60' :: scalar '-' :: marks.map (·.1), c ≠ x := by
    rintro x hx rfl
    exact h.notMark hx
  have hinteger : lexeme? integer (c :: rest) = .ok none :=
    integer?_of_ne h.notDigit (hne '-' (by decide))
  have hoperator : operator? (c :: rest) = none := by
    unfold operator?
    split
    case h_6 => rfl
    all_goals
      rename_i heq
      cases heq
      exact absurd rfl (hne _ (by decide))
  have hpunctuation : punctuation? (c :: rest) = none := by
    unfold punctuation?
    split
    case h_6 => rfl
    all_goals
      rename_i heq
      cases heq
      exact absurd rfl (hne _ (by decide))
  have hoperator : lexeme? operator (c :: rest) = .ok none := congrArg Except.ok hoperator
  have hpunctuation : lexeme? punctuation (c :: rest) = .ok none := congrArg Except.ok hpunctuation
  rw [firstLexeme?_all_of_not_letter (hne _ (by decide)) (hne _ (by decide)) h.notLetter,
    firstLexeme?_cons_of_none hinteger, firstLexeme?_cons_of_none hoperator,
    firstLexeme?_cons_of_none hpunctuation]
  rfl

/-- What is spelled is the first lexeme. -/
theorem firstLexeme?_of_spelledBefore (h : SpelledBefore text w rest) :
    ∃ l, firstLexeme? all (text ++ rest) = .ok (some l) ∧ l.word = w ∧ l.size = text.length := by
  cases h with
  | @text s _ h =>
    have hne : s.toList ≠ [] := fun hs => h.1 (Text.toList_eq_nil_iff.1 hs)
    have hbody : bodyAt? '"' (scalar '"' :: (s.toList ++ scalar '"' :: rest)) = some s.toList :=
      bodyAt?_append hne h.2
    refine ⟨.mk .text (.text s) (s.toList.length + 2) (by omega), ?_, rfl, by simp⟩
    refine firstLexeme?_cons_of_some ?_
    simp [lexeme?, text?, hbody]
  | @bytes body _ bytes hmark h =>
    refine ⟨.mk .bytes (.bytes bytes) (body.length + 2) (by omega), ?_, rfl, by simp⟩
    have hbytes : lexeme? .bytes (scalar '\x60' :: (body ++ scalar '\x60' :: rest)) = _ :=
      congrArg Except.ok (bytes?_append hmark h)
    rw [List.cons_append, List.append_assoc]
    exact (firstLexeme?_cons_of_none rfl).trans (firstLexeme?_cons_of_some hbytes)
  | @typeArray s sign digits _ hs h hlen hsize =>
    have hb : Bracketed sign digits (scalar '[' :: (sign ++ (digits ++ scalar ']' :: rest))) :=
      ⟨h, rest, rfl⟩
    have harray := typeArray?_of_bracketed hs hb
    rw [if_pos hlen, if_pos hsize] at harray
    have hpos : 0 < (s.toList ++ scalar '[' :: (sign ++ (digits ++ [scalar ']']))).length :=
      List.length_pos_iff.2 (by simp)
    refine ⟨.mk .typeArray (.sized s (Text.ofDigits 10 digits)) _ hpos, ?_, rfl, rfl⟩
    simp only [List.append_assoc, List.cons_append, List.nil_append]
    rw [firstLexeme?_all_of_isName hs]
    exact firstLexeme?_cons_of_some harray
  | @name s _ hs hrest hsize =>
    have harray : lexeme? typeArray (s.toList ++ rest) = .ok none :=
      (typeArray?_eq_none_iff hs hrest).2 hsize
    obtain ⟨l, hl, hword, hlength⟩ := word?_append hs hrest
    have hl : lexeme? word (s.toList ++ rest) = .ok (some l) := congrArg Except.ok hl
    refine ⟨l, ?_, hword, hlength⟩
    rw [firstLexeme?_all_of_isName hs, firstLexeme?_cons_of_none harray,
      firstLexeme?_cons_of_some hl]
  | @integer sign digits _ h hlen hrest =>
    have hinteger := integer?_append h hrest
    rw [if_pos hlen] at hinteger
    have hpos : 0 < (sign ++ digits).length :=
      List.length_pos_iff.2 (List.append_ne_nil_of_right_ne_nil sign h.ne_nil)
    refine ⟨.mk .integer (.integer (numeralValue sign digits)) _ hpos, ?_, rfl, rfl⟩
    rw [List.append_assoc, firstLexeme?_all_of_isNumeral h]
    exact firstLexeme?_cons_of_some hinteger
  | arrow => exact ⟨{ kind := .rightArrow, size := 2 }, rfl, rfl, rfl⟩
  | minus hrest =>
    have hdigit : ∀ x ∈ (signAt (scalar '-' :: rest)).2.head?, Text.isDecimalDigit x = false :=
      fun x hx => (hrest x hx).1
    have hinteger : lexeme? integer (scalar '-' :: rest) = .ok none := integer?_of_no_digit hdigit
    refine ⟨{ kind := .subtract, size := 1 }, ?_, rfl, rfl⟩
    rw [List.singleton_append, firstLexeme?_all_of_not_letter (by decide) (by decide) (by decide),
      firstLexeme?_cons_of_none hinteger, firstLexeme?, lexeme?,
      operator?_minus fun x hx => (hrest x hx).2]
  | mark h =>
    simp only [marks, List.mem_cons, List.not_mem_nil, or_false, Prod.mk.injEq] at h
    rcases h with ⟨rfl, rfl⟩ | ⟨rfl, rfl⟩ | ⟨rfl, rfl⟩ | ⟨rfl, rfl⟩ | ⟨rfl, rfl⟩ | ⟨rfl, rfl⟩ |
      ⟨rfl, rfl⟩ | ⟨rfl, rfl⟩
    all_goals exact ⟨_, rfl, rfl, rfl⟩
  | odd h => exact ⟨_, h.firstLexeme?, rfl, rfl⟩
  | quote h =>
    refine ⟨Lexeme.illegal '"', ?_, rfl, rfl⟩
    have htext : lexeme? .text (scalar '"' :: rest) = .ok none := by
      rw [lexeme?, text?, h, Option.map_none]
    rw [List.singleton_append, all, firstLexeme?_cons_of_none htext]
    rfl
  | tick h =>
    refine ⟨Lexeme.illegal '\x60', ?_, rfl, rfl⟩
    have hbytes : lexeme? .bytes (scalar '\x60' :: rest) = .ok none := by rw [lexeme?, h]
    have htext : lexeme? .text (scalar '\x60' :: rest) = .ok none := rfl
    rw [List.singleton_append, all, firstLexeme?_cons_of_none htext,
      firstLexeme?_cons_of_none hbytes]
    rfl

/-- Two words that are spelled at the same place are the same, and so are their texts. -/
theorem SpelledBefore.unique {text' rest' : List CodePoint} {w' : Word}
    (h : SpelledBefore text w rest) (h' : SpelledBefore text' w' rest')
    (heq : text ++ rest = text' ++ rest') : text = text' ∧ w = w' := by
  obtain ⟨l, hl, rfl, hsize⟩ := firstLexeme?_of_spelledBefore h
  obtain ⟨l', hl', rfl, hsize'⟩ := firstLexeme?_of_spelledBefore h'
  rw [heq, hl'] at hl
  cases hl
  exact ⟨List.append_inj_left heq (hsize.symm.trans hsize'), rfl⟩

/-! ## The lexeme at a place -/

/-- Some class answers wherever a character is. -/
theorem firstLexeme?_all_ne_none : firstLexeme? all (c :: cs) ≠ .ok none := by
  intro h
  simp only [all, firstLexeme?_cons_iff, ne_eq, not_true_eq_false, and_false, false_or] at h
  obtain ⟨-, -, -, -, -, -, -, hillegal, -⟩ := h
  cases hillegal

/-- The lexeme at a place is the first that a class finds. -/
theorem lexemeAt_eq_ok_iff : lexemeAt c cs = .ok l ↔ firstLexeme? all (c :: cs) = .ok (some l) := by
  unfold lexemeAt
  split
  · next h => simp [h]
  · next found h =>
    cases found with
    | none => exact absurd h firstLexeme?_all_ne_none
    | some l' => simp [h]

/-- A lexeme is its word and its size. -/
theorem Lexeme.eq_of_word {l' : Lexeme} (hword : l.word = l'.word)
    (hsize : l.size = l'.size) : l = l' := by
  cases l
  cases l'
  simp_all [Lexeme.word]

/-- The lexeme at a place is the one that stands there. -/
theorem lexemeAt_iff_standsIn : lexemeAt c cs = .ok l ↔ l.StandsIn (c :: cs) := by
  rw [lexemeAt_eq_ok_iff]
  refine ⟨standsIn_of_firstLexeme?, ?_⟩
  rintro ⟨text, rest, hsource, hspelled, hsize⟩
  obtain ⟨l', hl', hword, hsize'⟩ := firstLexeme?_of_spelledBefore hspelled
  rw [hsource, hl', Lexeme.eq_of_word hword (hsize'.trans hsize)]

/-! ## Numbers that are too long -/

/-- The text begins with a number of so many digits, which are too many: an integer, or the size of
an array type. -/
inductive StartsOverlong : Nat → List CodePoint → Prop
  /-- An integer. -/
  | integer {sign digits rest : List CodePoint} (h : IsNumeral sign digits)
    (hrest : ∀ x ∈ rest.head?, Text.isDecimalDigit x = false)
    (hlong : Text.digitLimit < digits.length) :
    StartsOverlong digits.length (sign ++ (digits ++ rest))
  /-- A size in brackets after a name. -/
  | size {s : Text} {sign digits rest : List CodePoint} (hs : IsName s) (h : IsNumeral sign digits)
    (hlong : Text.digitLimit < digits.length) :
    StartsOverlong digits.length
      (s.toList ++ scalar '[' :: (sign ++ (digits ++ scalar ']' :: rest)))

/-- A number that is too long is a run of digits of the text. -/
theorem StartsOverlong.digitRun {n : Nat} (h : StartsOverlong n source) :
    ∃ digits, digits <:+: source ∧ (∀ d ∈ digits, Text.isDecimalDigit d) ∧
      Text.digitLimit < digits.length := by
  cases h with
  | @integer sign digits rest h _ hlong => exact ⟨digits, ⟨sign, rest, by simp⟩, h.isDigit, hlong⟩
  | @size s sign digits rest _ h hlong =>
    exact ⟨digits, ⟨s.toList ++ scalar '[' :: sign, scalar ']' :: rest, by simp⟩, h.isDigit, hlong⟩

/-- A number that is too long is no gap. -/
theorem StartsOverlong.head {n : Nat} (h : StartsOverlong n source) :
    ∃ c cs, source = c :: cs ∧ opensGap c = false := by
  cases h with
  | @integer sign digits rest h =>
    obtain ⟨c, cs, hlist, hc⟩ := h.head
    exact ⟨c, cs ++ rest, by rw [← List.append_assoc, hlist, List.cons_append], hc⟩
  | size hs =>
    obtain ⟨c, cs, hlist, hc⟩ := head_of_isName hs
    exact ⟨c, _, by rw [hlist, List.cons_append], hc⟩

/-- An array type fails for a size of too many digits. -/
theorem startsOverlong_of_typeArray?_error {e : DigitLimit} (h : typeArray? source = .error e) :
    StartsOverlong e.digits source := by
  cases hname : nameAt? source with
  | none => simp [typeArray?, hname] at h
  | some cs =>
    obtain ⟨s, rest, -, rfl, hs, hrest⟩ := nameAt?_split hname
    by_cases hany : ∃ sign digits, Bracketed sign digits rest
    · obtain ⟨sign, digits, hb⟩ := hany
      rw [typeArray?_of_bracketed hs hb] at h
      obtain ⟨hnumeral, more, rfl⟩ := hb
      split at h
      · split at h <;> cases h
      · next hlen =>
        cases h
        exact .size hs hnumeral (Nat.lt_of_not_le hlen)
    · rw [typeArray?_of_not_bracketed hs hrest fun sign digits hb => hany ⟨sign, digits, hb⟩] at h
      cases h

/-- An integer fails for too many digits. -/
theorem startsOverlong_of_integer?_error {e : DigitLimit} (h : integer? source = .error e) :
    StartsOverlong e.digits source := by
  rcases numeral_or_none source with ⟨sign, digits, rest, rfl, hnumeral, hrest⟩ | hnone
  · rw [integer?_append hnumeral hrest] at h
    split at h
    · cases h
    · next hlen =>
      cases h
      exact .integer hnumeral hrest (Nat.lt_of_not_le hlen)
  · rw [integer?_of_no_digit hnone] at h
    cases h

/-- A class that fails lets no other one try. -/
theorem firstLexeme?_cons_of_error {cls : TokenClass} {classes : List TokenClass} {e : DigitLimit}
    (h : cls.lexeme? source = .error e) : firstLexeme? (cls :: classes) source = .error e := by
  rw [firstLexeme?, h]

/-- A number that is too long is the first thing that a class answers to. -/
theorem StartsOverlong.firstLexeme? {n : Nat} (h : StartsOverlong n source) :
    TokenClass.firstLexeme? all source = .error ⟨n⟩ := by
  cases h with
  | integer h hrest hlong =>
    have hinteger := integer?_append h hrest
    rw [if_neg (Nat.not_le.2 hlong)] at hinteger
    rw [firstLexeme?_all_of_isNumeral h]
    exact firstLexeme?_cons_of_error hinteger
  | @size s sign digits rest hs h hlong =>
    have hb : Bracketed sign digits (scalar '[' :: (sign ++ (digits ++ scalar ']' :: rest))) :=
      ⟨h, rest, rfl⟩
    have harray := typeArray?_of_bracketed hs hb
    rw [if_neg (Nat.not_le.2 hlong)] at harray
    rw [firstLexeme?_all_of_isName hs]
    exact firstLexeme?_cons_of_error harray

/-- There is no lexeme at a place exactly if a number that is too long is there. -/
theorem lexemeAt_eq_error_iff {e : DigitLimit} :
    lexemeAt c cs = .error e ↔ StartsOverlong e.digits (c :: cs) := by
  constructor
  · intro h
    have hfirst : firstLexeme? all (c :: cs) = .error e := by
      unfold lexemeAt at h
      split at h
      · next h' =>
        cases h
        exact h'
      · cases h
    simp only [all, firstLexeme?_cons_iff, lexeme?, ne_eq, reduceCtorEq, not_false_eq_true,
      and_true, false_or] at hfirst
    obtain ⟨-, -, h | ⟨-, -, h | ⟨-, -, -, -, h⟩⟩⟩ := hfirst
    · exact startsOverlong_of_typeArray?_error h
    · exact startsOverlong_of_integer?_error h
    · cases h
  · intro h
    rw [lexemeAt, h.firstLexeme?]

end ByteLayout
