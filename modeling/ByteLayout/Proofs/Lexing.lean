import Mathlib.Data.List.TakeWhile
import ByteLayout.Token.Lexer

/-!
# What a text is cut into

`lexemesOf` lists the lexemes of a text without their places; `map_word_tokensFrom` says that the
tokens of a text have the kinds and values of these lexemes, and one more that ends the input.

`wellFormed_of_wordsOf` says what the values of lexemes can be: names are letters, digits and
underscores and of the class of their kind, integers have 64 bits, texts hold a character and no
quotation mark, and byte sequences hold a byte.
-/

namespace ByteLayout

/-! ## Kinds and values -/

/-- A kind and a value. -/
abbrev Word := TokenKind × TokenValue

/-- The kind and the value of a token. -/
def Token.word (t : Token) : Word :=
  (t.kind, t.value)

/-- Tokens of one word have one kind. -/
theorem Token.kind_eq_of_word {t u : Token} (h : u.word = t.word) : u.kind = t.kind :=
  congrArg Prod.fst h

/-- Tokens of one word have one value. -/
theorem Token.value_eq_of_word {t u : Token} (h : u.word = t.word) : u.value = t.value :=
  congrArg Prod.snd h

/-- The kind and the value of a lexeme. -/
def Lexeme.word (l : Lexeme) : Word :=
  (l.kind, l.value)

/-- The word of the token that ends the input. -/
def Word.endOfInput : Word :=
  (.endOfInput, .none)

/-- The lexemes of a text, without blanks and comments. -/
def lexemesOf (source : List CodePoint) : Except DigitLimit (List Lexeme) :=
  match source with
  | [] => .ok []
  | c :: rest =>
    if Lexeme.isBlank c then lexemesOf rest
    else if c = '#' then lexemesOf (rest.drop (commentBody rest).length)
    else
      match lexemeAt c rest with
      | .error e => .error e
      | .ok l => (lexemesOf ((c :: rest).drop l.size)).map (l :: ·)
termination_by source.length
decreasing_by
  · exact Nat.lt_succ_self _
  · simp only [List.length_drop, List.length_cons]
    omega
  · have := l.size_pos
    simp only [List.length_drop, List.length_cons]
    omega

/-- The words of a text, without the end of the input. -/
def wordsOf (source : List CodePoint) : Except DigitLimit (List Word) :=
  (lexemesOf source).map (List.map Lexeme.word)

/-- Tokens are read with the words of the text, wherever they stand. -/
theorem map_word_tokensFrom (offset : Nat) (read : List Token) (source : List CodePoint) :
    (tokensFrom offset read source).map (List.map Token.word) =
      (wordsOf source).map fun ws => (read.map Token.word).reverse ++ ws ++ [Word.endOfInput] := by
  fun_induction tokensFrom offset read source with
  | case1 offset read =>
    simp [wordsOf, lexemesOf, Except.map, Token.word, Token.endAt, Word.endOfInput]
  | case2 offset read c rest hblank ih =>
    rw [ih]
    simp [wordsOf, lexemesOf, hblank]
  | case3 offset read rest hblank comment ih =>
    rw [ih]
    simp [wordsOf, lexemesOf, hblank, comment]
  | case4 offset read c rest hblank hcomment e he =>
    simp [wordsOf, lexemesOf, hblank, hcomment, he, Except.map]
  | case5 offset read c rest hblank hcomment l hl ih =>
    rw [ih]
    simp only [wordsOf, lexemesOf, hblank, hcomment, hl]
    cases lexemesOf ((c :: rest).drop l.size) with
    | error e => rfl
    | ok ls => simp [Except.map, Token.word, Lexeme.token, Lexeme.word]

/-- The tokens of a text carry its words and end with the end of the input. -/
theorem lex_eq_ok {source : Text} {tokens : List Token} (h : lex source = .ok tokens) :
    ∃ ws, wordsOf source.toList = .ok ws ∧ tokens.map Token.word = ws ++ [Word.endOfInput] := by
  have hall := map_word_tokensFrom 0 [] source.toList
  rw [← lex, h] at hall
  cases hws : wordsOf source.toList with
  | error e =>
    rw [hws] at hall
    cases hall
  | ok ws =>
    rw [hws] at hall
    exact ⟨ws, rfl, by simpa [Except.map] using hall⟩

/-- A text that has words has tokens. -/
theorem lex_of_wordsOf {source : Text} {ws : List Word} (h : wordsOf source.toList = .ok ws) :
    ∃ tokens, lex source = .ok tokens ∧ tokens.map Token.word = ws ++ [Word.endOfInput] := by
  have hall := map_word_tokensFrom 0 [] source.toList
  rw [← lex, h] at hall
  cases htokens : lex source with
  | error e =>
    rw [htokens] at hall
    cases hall
  | ok tokens =>
    rw [htokens] at hall
    exact ⟨tokens, rfl, by simpa [Except.map] using hall⟩

/-! ## Lexemes of a class -/

/-- The first lexeme is that of one of the classes. -/
theorem TokenClass.firstLexeme?_eq_some {classes : List TokenClass} {source : List CodePoint}
    {l : Lexeme} (h : firstLexeme? classes source = .ok (some l)) :
    ∃ cls ∈ classes, cls.lexeme? source = .ok (some l) := by
  induction classes with
  | nil => cases h
  | cons cls classes ih =>
    unfold firstLexeme? at h
    split at h
    · cases h
    · next found hfound =>
      cases h
      exact ⟨cls, List.mem_cons_self, hfound⟩
    · obtain ⟨cls', hmem, hfound⟩ := ih h
      exact ⟨cls', List.mem_cons_of_mem _ hmem, hfound⟩

/-- The lexeme at a place is the answer of a class. -/
theorem lexemeAt_eq_ok {c : CodePoint} {rest : List CodePoint} {l : Lexeme}
    (h : lexemeAt c rest = .ok l) : ∃ cls, TokenClass.lexeme? cls (c :: rest) = .ok (some l) := by
  unfold lexemeAt at h
  split at h
  · cases h
  · next found hfound =>
    cases h
    cases found with
    | none => exact ⟨.illegal, rfl⟩
    | some l =>
      obtain ⟨cls, -, hcls⟩ := TokenClass.firstLexeme?_eq_some hfound
      exact ⟨cls, hcls⟩

namespace Lexeme

/-- The text is a letter and then letters, digits and underscores. -/
def IsName (s : Text) : Prop :=
  ∃ c cs, s.toList = c :: cs ∧ isLetter c ∧ ∀ x ∈ cs, isNameChar x

/-- The text is a name that stands for nothing else. -/
structure IsIdentifier (s : Text) : Prop where
  /-- It is a name. -/
  isName : IsName s
  /-- It spells no type. -/
  notType : Text.lower s ∉ typeNames
  /-- It is not reserved. -/
  notReserved : Text.lower s ∉ reservedNames
  /-- It spells no keyword. -/
  notKeyword : keyword? (Text.lower s) = none

/-- The text can stand between two quotation marks. -/
def IsQuotable (s : Text) : Prop :=
  s ≠ "" ∧ scalar '"' ∉ s.toList

/-- The number fits 64 bits with a sign. -/
def IsSigned64 (n : Int) : Prop :=
  -0x8000000000000000 ≤ n ∧ n < 0x8000000000000000

end Lexeme

/-- The value is one that a lexeme of the kind can have. -/
def Word.WellFormed : Word → Prop
  | (.identifier, .text s) => Lexeme.IsIdentifier s
  | (.typeName, .text s) => Text.lower s ∈ Lexeme.typeNames
  | (.reserved, .text s) => Text.lower s ∈ Lexeme.reservedNames
  | (.integer, .integer n) => Lexeme.IsSigned64 n
  | (.text, .text s) => Lexeme.IsQuotable s
  | (.bytes, .bytes bs) => bs ≠ []
  | _ => True

theorem Word.wellFormed_of_none {kind : TokenKind} : WellFormed (kind, .none) := by
  cases kind <;> trivial

namespace Lexeme

/-- What is taken for a name is one. -/
theorem nameAt?_eq_some {source name : List CodePoint} (h : nameAt? source = some name) :
    IsName (Text.ofList name) := by
  unfold nameAt? at h
  split at h
  · cases h
  · next c rest =>
    split at h
    · next hc =>
      cases h
      refine ⟨c, rest.takeWhile isNameChar, Text.toList_ofList, hc, fun x hx => ?_⟩
      exact List.mem_takeWhile_imp hx
    · cases h

/-- The body of a literal is not empty and holds no closing mark. -/
theorem bodyAt?_eq_some {mark : CodePoint} {source body : List CodePoint}
    (h : bodyAt? mark source = some body) : body ≠ [] ∧ mark ∉ body := by
  unfold bodyAt? at h
  split at h
  · cases h
  · next c rest =>
    split at h
    · split at h
      · cases h
      · cases h
      · cases h
        rename_i hne
        refine ⟨hne, fun hmem => ?_⟩
        simpa using List.mem_takeWhile_imp hmem
    · cases h

/-- A wrapped number has 64 bits. -/
theorem isSigned64_wrap64 (n : Int) : IsSigned64 (Text.wrap64 n) := by
  have hlow := Int.le_bmod (x := n) (m := UInt64.size) (by decide)
  have hhigh := Int.bmod_lt (x := n) (m := UInt64.size) (by decide)
  simp only [UInt64.size] at hlow hhigh
  simp only [IsSigned64, Text.wrap64, UInt64.size]
  omega

/-- The lexeme of a text has a body. -/
theorem wellFormed_text? {source : List CodePoint} {l : Lexeme} (h : text? source = some l) :
    l.word.WellFormed := by
  obtain ⟨body, hbody, rfl⟩ := Option.map_eq_some_iff.1 h
  obtain ⟨hne, hmem⟩ := bodyAt?_eq_some hbody
  refine ⟨fun he => hne ?_, by simpa using hmem⟩
  simpa using congrArg Text.toList he

/-- A text has at least one chunk. -/
theorem splitAtSpaces_ne_nil (text : List CodePoint) : splitAtSpaces text ≠ [] :=
  List.splitOnP_ne_nil _ _

/-- The lexeme of bytes has at least one byte. -/
theorem wellFormed_bytes? {source : List CodePoint} {l : Lexeme} (h : bytes? source = some l) :
    l.word.WellFormed := by
  obtain ⟨body, hbody, h⟩ := Option.bind_eq_some_iff.1 h
  obtain ⟨bytes, hbytes, rfl⟩ := Option.map_eq_some_iff.1 h
  show bytes ≠ []
  rintro rfl
  cases hsplit : splitAtSpaces body with
  | nil => exact splitAtSpaces_ne_nil body hsplit
  | cons chunk chunks =>
    rw [hsplit, List.mapM_cons] at hbytes
    simp [Option.bind_eq_some_iff] at hbytes

/-- The lexeme of an array has a type and a size of 32 bits. -/
theorem wellFormed_typeArray? {source : List CodePoint} {l : Lexeme}
    (h : typeArray? source = .ok (some l)) : l.word.WellFormed := by
  unfold typeArray? at h
  split at h
  · cases h
  · split at h
    · dsimp only at h
      split at h
      · split at h
        · cases h
        · split at h
          · cases h
            trivial
          · cases h
      · cases h
    · cases h

/-- The lexeme of a word is classed by its small letters. -/
theorem wellFormed_word? {source : List CodePoint} {l : Lexeme} (h : word? source = some l) :
    l.word.WellFormed := by
  unfold word? at h
  split at h
  · cases h
  · cases h
  · next c more hname =>
    have hname := nameAt?_eq_some hname
    dsimp only at h
    split at h
    · next htype =>
      cases h
      exact htype
    · next htype =>
      split at h
      · next hreserved =>
        cases h
        exact hreserved
      · next hreserved =>
        split at h
        · cases h
          exact Word.wellFormed_of_none
        · next hkeyword =>
          cases h
          exact ⟨hname, htype, hreserved, hkeyword⟩

/-- The lexeme of an integer has a number of 64 bits. -/
theorem wellFormed_integer? {source : List CodePoint} {l : Lexeme}
    (h : integer? source = .ok (some l)) : l.word.WellFormed := by
  unfold integer? at h
  dsimp only at h
  split at h
  · cases h
  · split at h
    · cases h
    · cases h
      exact isSigned64_wrap64 _

/-- The lexeme of an operator has no value. -/
theorem wellFormed_operator? {source : List CodePoint} {l : Lexeme}
    (h : operator? source = some l) : l.word.WellFormed := by
  unfold operator? at h
  split at h
  all_goals cases h
  all_goals trivial

/-- Nor has that of a punctuation mark. -/
theorem wellFormed_punctuation? {source : List CodePoint} {l : Lexeme}
    (h : punctuation? source = some l) : l.word.WellFormed := by
  unfold punctuation? at h
  split at h
  all_goals cases h
  all_goals trivial

/-- The lexemes of every class are well formed. -/
theorem wellFormed_lexeme? {cls : TokenClass} {source : List CodePoint} {l : Lexeme}
    (h : cls.lexeme? source = .ok (some l)) : l.word.WellFormed := by
  cases cls with
  | text => exact wellFormed_text? (Except.ok.inj h)
  | bytes => exact wellFormed_bytes? (Except.ok.inj h)
  | typeArray => exact wellFormed_typeArray? h
  | word => exact wellFormed_word? (Except.ok.inj h)
  | integer => exact wellFormed_integer? h
  | operator => exact wellFormed_operator? (Except.ok.inj h)
  | punctuation => exact wellFormed_punctuation? (Except.ok.inj h)
  | illegal =>
    cases source with
    | nil => cases h
    | cons c rest =>
      cases h
      trivial

end Lexeme

/-- Every lexeme of a text is well formed. -/
theorem wellFormed_of_lexemesOf {source : List CodePoint} {ls : List Lexeme}
    (h : lexemesOf source = .ok ls) : ∀ l ∈ ls, l.word.WellFormed := by
  fun_induction lexemesOf source generalizing ls with
  | case1 =>
    cases h
    simp
  | case2 c rest hblank ih | case3 rest hblank ih => exact ih h
  | case4 => cases h
  | case5 c rest hblank hcomment l hl ih =>
    obtain ⟨cls, hcls⟩ := lexemeAt_eq_ok hl
    cases hmore : lexemesOf ((c :: rest).drop l.size) with
    | error e =>
      rw [hmore] at h
      cases h
    | ok more =>
      rw [hmore] at h
      cases h
      intro l' hl'
      rcases List.mem_cons.1 hl' with rfl | hl'
      · exact Lexeme.wellFormed_lexeme? hcls
      · exact ih hmore l' hl'

/-- Every word of a text is well formed. -/
theorem wellFormed_of_wordsOf {source : List CodePoint} {ws : List Word}
    (h : wordsOf source = .ok ws) : ∀ w ∈ ws, w.WellFormed := by
  unfold wordsOf at h
  cases hls : lexemesOf source with
  | error e =>
    rw [hls] at h
    cases h
  | ok ls =>
    rw [hls] at h
    cases h
    intro w hw
    obtain ⟨l, hl, rfl⟩ := List.mem_map.1 hw
    exact wellFormed_of_lexemesOf hls l hl

end ByteLayout
