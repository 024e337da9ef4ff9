import Mathlib.Data.Int.ModEq
import ByteLayout.Proofs.Cutting
import ByteLayout.Proofs.Results

/-!
# What tokens stand for

Every token stands for its lexeme, the part of the text at its span: `Token.StandsFor` says, kind by
kind, what the lexeme looks like and what the value has to do with it, and `BeginsNothing` says
which characters are illegal lexemes, given what follows them. A lexeme is read alone as it is read
in the text.

`lex_faithful`: all of this holds of every token of a text.
-/

namespace ByteLayout

open Lexeme

variable {c : CodePoint} {after body chunk source text rest : List CodePoint} {b : UInt8}
  {bytes : List UInt8} {offset : Nat} {w : Word} {t : Token} {tokens : List Token}

/-! ## Bytes -/

/-- The chunk is hexadecimal digits, one or more, that denote the byte. -/
structure SpellsByte (chunk : List CodePoint) (b : UInt8) : Prop where
  /-- There is a digit. -/
  ne_nil : chunk ≠ []
  /-- The digits are hexadecimal. -/
  isDigit : ∀ c ∈ chunk, Text.isHexDigit c
  /-- The digits denote the byte. -/
  value : Text.ofDigits 16 chunk = b.toNat

/-- The text is a chunk for each byte, at least one, with one space between two chunks. -/
def SpellsBytes (body : List CodePoint) (bytes : List UInt8) : Prop :=
  ∃ chunks, chunks ≠ [] ∧ body = [scalar ' '].intercalate chunks ∧
    List.Forall₂ SpellsByte chunks bytes

/-- A chunk is read as the byte that it spells. -/
theorem chunkByte?_eq_some_iff : chunkByte? chunk = some b ↔ SpellsByte chunk b := by
  unfold chunkByte?
  constructor
  · intro h
    split at h
    · next hchunk =>
      obtain ⟨hne, hdigits, hle⟩ := hchunk
      cases h
      refine ⟨hne, List.all_eq_true.1 hdigits, ?_⟩
      rw [UInt8.toNat_ofNat', Nat.mod_eq_of_lt (by omega)]
    · cases h
  · intro h
    have hlt : b.toNat < 256 := b.toNat_lt
    rw [if_pos ⟨h.ne_nil, List.all_eq_true.2 h.isDigit, by rw [h.value]; omega⟩, h.value,
      UInt8.ofNat_toNat]

/-- A body is read as bytes exactly if it spells them. -/
theorem mapM_chunkByte?_iff :
    (splitAtSpaces body).mapM chunkByte? = some bytes ↔ SpellsBytes body bytes := by
  have hspace : Text.isHexDigit ' ' = false := by decide
  simp only [mapM_eq_some_iff, chunkByte?_eq_some_iff]
  constructor
  · intro h
    exact ⟨_, splitAtSpaces_ne_nil body, (List.intercalate_splitOn (scalar ' ')).symm, h⟩
  · rintro ⟨chunks, hne, rfl, h⟩
    have hchunks : ∀ chunk ∈ chunks, scalar ' ' ∉ chunk := by
      intro chunk hchunk hmem
      obtain ⟨b, -, hb⟩ := forall₂_of_mem_left h hchunk
      have := hb.isDigit ' ' hmem
      rw [hspace] at this
      cases this
    have hsplit : splitAtSpaces ([scalar ' '].intercalate chunks) = chunks :=
      List.splitOn_intercalate (scalar ' ') hchunks hne
    rwa [hsplit]

/-! ## Lexemes -/

/-- What the lexeme of a token looks like, and what the token's value is then. -/
def Token.StandsFor (t : Token) (lexeme : List CodePoint) : Prop :=
  match t.kind with
  | .typeName =>
    t.value = .text (Text.ofList lexeme) ∧ Text.lower (Text.ofList lexeme) ∈ typeNames
  | .reserved =>
    t.value = .text (Text.ofList lexeme) ∧ Text.lower (Text.ofList lexeme) ∈ reservedNames
  | .identifier => t.value = .text (Text.ofList lexeme) ∧ IsIdentifier (Text.ofList lexeme)
  | .asWord | .defineWord | .fromWord | .generateWord | .whereWord | .withWord =>
    t.value = .none ∧ keyword? (Text.lower (Text.ofList lexeme)) = some t.kind
  | .text => ∃ s, t.value = .text s ∧ lexeme = scalar '"' :: (s.toList ++ [scalar '"']) ∧ s ≠ "" ∧
      scalar '"' ∉ s.toList
  | .integer => ∃ n sign digits, t.value = .integer n ∧ lexeme = sign ++ digits ∧
      IsNumeral sign digits ∧ -2 ^ 63 ≤ n ∧ n < 2 ^ 63 ∧
      n ≡ (if sign = [] then 1 else -1) * Text.ofDigits 10 digits [ZMOD 2 ^ 64]
  | .bytes => ∃ body bytes, t.value = .bytes bytes ∧
      lexeme = scalar '\x60' :: (body ++ [scalar '\x60']) ∧ SpellsBytes body bytes
  | .typeArray => ∃ name sign digits, t.value = .sized name (Text.ofDigits 10 digits) ∧
      lexeme = name.toList ++ scalar '[' :: (sign ++ (digits ++ [scalar ']'])) ∧ IsName name ∧
      IsNumeral sign digits ∧ Text.ofDigits 10 digits < 2 ^ 32
  | .rightArrow => t.value = .none ∧ lexeme = [scalar '-', scalar '>']
  | .subtract => t.value = .none ∧ lexeme = [scalar '-']
  | .assign | .add | .multiply | .leftParen | .rightParen | .comma | .reference | .colon =>
    t.value = .none ∧ ∃ c, lexeme = [c] ∧ (c, t.kind) ∈ marks
  | .illegal => ∃ c, t.value = .text (Text.singleton c) ∧ lexeme = [c]
  | .comment | .endOfInput => False

/-- A character is an illegal lexeme before a text. -/
inductive BeginsNothing : CodePoint → List CodePoint → Prop
  /-- A quotation mark that is followed by another one at once, or by none. -/
  | quote {after : List CodePoint} (h : after.head? = some (scalar '"') ∨ scalar '"' ∉ after) :
    BeginsNothing '"' after
  /-- A backtick that is followed by no other one, or by one after something else than bytes. -/
  | tick {after : List CodePoint}
    (h : scalar '\x60' ∉ after ∨ ¬ ∃ bytes, SpellsBytes (after.takeWhile (· != '\x60')) bytes) :
    BeginsNothing '\x60' after
  /-- A character that begins a token of no other class, and no gap. -/
  | odd {c : CodePoint} {after : List CodePoint} (h : IsOdd c) (hgap : opensGap c = false) :
    BeginsNothing c after

/-- A keyword's kind is one of six. -/
theorem keyword?_cases {word : Text} {kind : TokenKind} (h : keyword? word = some kind) :
    kind = .asWord ∨ kind = .defineWord ∨ kind = .fromWord ∨ kind = .generateWord ∨
      kind = .whereWord ∨ kind = .withWord := by
  unfold keyword? at h
  repeat' split at h
  all_goals cases h
  all_goals decide

/-- A token with the word of a name stands for the name. -/
theorem standsFor_of_nameWord {s : Text} (h : IsName s) (hword : t.word = nameWord s) :
    t.StandsFor s.toList := by
  obtain ⟨kind, value, span⟩ := t
  have hword : (kind, value) = nameWord s := hword
  unfold nameWord at hword
  unfold Token.StandsFor
  rw [Text.ofList_toList]
  split at hword
  · next htype =>
    cases hword
    exact ⟨rfl, htype⟩
  split at hword
  · next hreserved =>
    cases hword
    exact ⟨rfl, hreserved⟩
  split at hword
  · next kind' hkeyword =>
    cases hword
    rcases keyword?_cases hkeyword with rfl | rfl | rfl | rfl | rfl | rfl
    all_goals exact ⟨rfl, hkeyword⟩
  · next htype hreserved _ hkeyword =>
    cases hword
    exact ⟨rfl, h, htype, hreserved, hkeyword⟩

/-- The value of a numeral is the number that it denotes, up to multiples of the 64-bit range. -/
theorem numeralValue_modEq (sign digits : List CodePoint) : numeralValue sign digits ≡
    (if sign = [] then 1 else -1) * Text.ofDigits 10 digits [ZMOD 2 ^ 64] := by
  have hwrap : ∀ n : Int, Text.wrap64 n ≡ n [ZMOD 2 ^ 64] := fun n => Int.bmod_emod
  unfold numeralValue
  split
  · simpa using hwrap (Text.ofDigits 10 digits)
  · simpa using hwrap (-Text.ofDigits 10 digits)

/-- A token stands for the text of its word. -/
theorem SpelledBefore.standsFor (h : SpelledBefore text w rest) (hword : t.word = w) :
    t.StandsFor text := by
  cases h with
  | name h => exact standsFor_of_nameWord h hword
  | text h =>
    obtain ⟨hkind, hvalue⟩ := Prod.mk.inj hword
    rw [Token.StandsFor, hkind]
    exact ⟨_, hvalue, rfl, h.1, h.2⟩
  | bytes _ h =>
    obtain ⟨hkind, hvalue⟩ := Prod.mk.inj hword
    rw [Token.StandsFor, hkind]
    exact ⟨_, _, hvalue, rfl, mapM_chunkByte?_iff.1 h⟩
  | typeArray hs h _ hsize =>
    obtain ⟨hkind, hvalue⟩ := Prod.mk.inj hword
    rw [Token.StandsFor, hkind]
    exact ⟨_, _, _, hvalue, rfl, hs, h, Nat.lt_succ_of_le hsize⟩
  | integer h =>
    obtain ⟨hkind, hvalue⟩ := Prod.mk.inj hword
    obtain ⟨hlow, hhigh⟩ := isSigned64_wrap64 _
    rw [Token.StandsFor, hkind]
    exact ⟨_, _, _, hvalue, rfl, h, hlow, hhigh, numeralValue_modEq _ _⟩
  | arrow | minus =>
    obtain ⟨hkind, hvalue⟩ := Prod.mk.inj hword
    rw [Token.StandsFor, hkind]
    exact ⟨hvalue, rfl⟩
  | mark hmark =>
    obtain ⟨hkind, hvalue⟩ := Prod.mk.inj hword
    have hcases := hmark
    simp only [marks, List.mem_cons, List.not_mem_nil, or_false, Prod.mk.injEq] at hcases
    rcases hcases with ⟨rfl, rfl⟩ | ⟨rfl, rfl⟩ | ⟨rfl, rfl⟩ | ⟨rfl, rfl⟩ | ⟨rfl, rfl⟩ | ⟨rfl, rfl⟩ |
      ⟨rfl, rfl⟩ | ⟨rfl, rfl⟩
    all_goals
      rw [Token.StandsFor, hkind]
      exact ⟨hvalue, _, rfl, hmark⟩
  | odd | quote | tick =>
    obtain ⟨hkind, hvalue⟩ := Prod.mk.inj hword
    rw [Token.StandsFor, hkind]
    exact ⟨_, hvalue, rfl⟩

/-! ## Illegal lexemes -/

/-- A backtick opens no bytes if it is not closed, or closed after something else. -/
theorem bytes?_eq_none_iff : bytes? (scalar '\x60' :: rest) = none ↔
    scalar '\x60' ∉ rest ∨ ¬ ∃ bytes, SpellsBytes (rest.takeWhile (· != '\x60')) bytes := by
  constructor
  · intro h
    by_contra hnot
    obtain ⟨hmem, hspells⟩ := not_or.1 hnot
    obtain ⟨bytes, hbytes⟩ := not_not.1 hspells
    obtain ⟨body, more, rfl, hbody⟩ := List.eq_append_cons_of_mem (not_not.1 hmem)
    rw [takeWhile_body hbody] at hbytes
    rw [bytes?_append hbody (mapM_chunkByte?_iff.2 hbytes)] at h
    cases h
  · intro h
    rw [Option.eq_none_iff_forall_ne_some]
    intro l hl
    obtain ⟨body, hbody, hl⟩ := Option.bind_eq_some_iff.1 hl
    obtain ⟨bytes, hbytes, -⟩ := Option.map_eq_some_iff.1 hl
    obtain ⟨-, hmark⟩ := bodyAt?_eq_some hbody
    obtain ⟨more, hsource⟩ := bodyAt?_split hbody
    obtain rfl := (List.cons.inj hsource).2
    rw [takeWhile_body hmark] at h
    rcases h with h | h
    · exact h (by simp)
    · exact h ⟨bytes, mapM_chunkByte?_iff.1 hbytes⟩

/-- A character that begins nothing is an illegal word. -/
theorem BeginsNothing.spelledBefore (h : BeginsNothing c after) :
    SpelledBefore [c] (.illegal, .text (Text.singleton c)) after := by
  cases h with
  | quote h => exact .quote (bodyAt?_eq_none_iff.2 h)
  | tick h => exact .tick (bytes?_eq_none_iff.2 h)
  | odd h => exact .odd h

/-- A word that begins with a character that is no gap is illegal exactly if the character begins
nothing. -/
theorem SpelledBefore.illegal_iff (h : SpelledBefore text w rest)
    (hsource : text ++ rest = c :: after) (hgap : opensGap c = false) :
    w.1 = .illegal ↔ BeginsNothing c after := by
  constructor
  · intro hw
    have hnames : ∀ kind ∈ nameKinds, kind ≠ .illegal := by decide
    have hmarks : ∀ p ∈ marks, p.2 ≠ .illegal := by decide
    cases h with
    | text | bytes | typeArray | integer | arrow | minus => cases hw
    | name => exact absurd hw (hnames _ (nameWord_mem _))
    | mark h => exact absurd hw (hmarks _ h)
    | odd h =>
      cases hsource
      exact .odd h hgap
    | quote h =>
      cases hsource
      exact .quote (bodyAt?_eq_none_iff.1 h)
    | tick h =>
      cases hsource
      exact .tick (bytes?_eq_none_iff.1 h)
  · intro hc
    obtain ⟨-, rfl⟩ := h.unique hc.spelledBefore hsource
    rfl

/-! ## Tokens of a text -/

/-- The text of a word is that of the word where nothing follows. -/
theorem SpelledBefore.alone (h : SpelledBefore text w rest) : SpelledBefore text w [] := by
  have hsize : NoSize [] := by
    rintro sign digits ⟨-, more, hnil⟩
    cases hnil
  cases h with
  | text h => exact .text h
  | bytes hmark h => exact .bytes hmark h
  | typeArray hs h hlen hfits => exact .typeArray hs h hlen hfits
  | name h => exact .name h (by simp) hsize
  | integer h hlen => exact .integer h hlen (by simp)
  | arrow => exact .arrow
  | minus => exact .minus (by simp)
  | mark h => exact .mark h
  | odd h => exact .odd h
  | quote => exact .quote rfl
  | tick => exact .tick rfl

/-- The text of a word alone is cut into the word. -/
theorem SpelledBefore.lex_alone (h : SpelledBefore text w rest)
    (hhead : ∀ c ∈ text.head?, opensGap c = false) :
    lex (Text.ofList text) = .ok [w.tokenAt 0 text.length, Token.endAt text.length] := by
  have hcut : Cut 0 ([] ++ (text ++ [])) _ := .token .nil h.alone hhead (.last .nil)
  rw [lex_iff_cut, Text.toList_ofList]
  simpa using hcut

/-- Every token of a cut but the last one is at the text of its word. -/
theorem Cut.exists_text (h : Cut offset source tokens) (ht : t ∈ tokens)
    (hkind : t.kind ≠ .endOfInput) : ∃ front text rest w, source = front ++ (text ++ rest) ∧
      SpelledBefore text w rest ∧ (∀ c ∈ text.head?, opensGap c = false) ∧
      t = w.tokenAt (offset + front.length) text.length := by
  induction h with
  | last =>
    obtain rfl := List.mem_singleton.1 ht
    exact absurd rfl hkind
  | @token offset gap text rest w tokens _ htext hhead _ ih =>
    rcases List.mem_cons.1 ht with rfl | ht
    · exact ⟨gap, text, rest, w, rfl, htext, hhead, rfl⟩
    · obtain ⟨front, text', rest', w', rfl, htext', hhead', rfl⟩ := ih ht
      refine ⟨gap ++ text ++ front, text', rest', w', by simp, htext', hhead', ?_⟩
      simp only [List.length_append, Nat.add_assoc]

/-- A token of a text stands for its lexeme, which is read alone as it is read in the text; and it
is illegal exactly if its first character begins nothing there. -/
theorem lex_faithful {source : Text} (h : lex source = .ok tokens) (ht : t ∈ tokens)
    (hkind : t.kind ≠ .endOfInput) : ∃ span lexeme c after, t.span = some span ∧
      source.toList.extract span.start span.stop = lexeme ∧
      source.toList.drop span.start = c :: after ∧
      lex (Text.ofList lexeme) =
        .ok [t.word.tokenAt 0 lexeme.length, Token.endAt lexeme.length] ∧
      t.StandsFor lexeme ∧ (t.kind = .illegal ↔ BeginsNothing c after) := by
  obtain ⟨front, text, rest, w, hsource, htext, hhead, rfl⟩ :=
    (lex_iff_cut.1 h).exists_text ht hkind
  rw [hsource, Nat.zero_add]
  obtain ⟨c, cs, rfl, -⟩ := htext.head
  have hdrop : (front ++ (c :: cs ++ rest)).drop front.length = c :: (cs ++ rest) := List.drop_left
  exact ⟨_, c :: cs, c, cs ++ rest, rfl, extract_middle front (c :: cs) rest, hdrop,
    htext.lex_alone hhead, htext.standsFor rfl, htext.illegal_iff rfl (hhead c rfl)⟩

/-- A size with a sign, marks that open nothing and a number beyond 64 bits. -/
def crampedText : Text :=
  "x[-4]\"\"\x60 -18446744073709551617"

/-- The number in `crampedText`. -/
def wrappedNumber : Token :=
  { kind := .integer, value := .integer (-1), span := some { start := 9, stop := 30 } }

/-- The tokens of `crampedText`. -/
def crampedTokens : List Token :=
  [{ kind := .typeArray, value := .sized "x" 4, span := some { start := 0, stop := 5 } },
    { kind := .illegal, value := .text "\"", span := some { start := 5, stop := 6 } },
    { kind := .illegal, value := .text "\"", span := some { start := 6, stop := 7 } },
    { kind := .illegal, value := .text "\x60", span := some { start := 7, stop := 8 } },
    wrappedNumber, Token.endAt 30]

/-- A number of more than 64 bits stands for its low 64 bits. -/
theorem wrappedNumber_faithful :
    (lex crampedText = .ok crampedTokens ∧ wrappedNumber ∈ crampedTokens ∧
      wrappedNumber.kind ≠ .endOfInput) ∧
    ∃ span lexeme c after, wrappedNumber.span = some span ∧
      crampedText.toList.extract span.start span.stop = lexeme ∧
      crampedText.toList.drop span.start = c :: after ∧
      lex (Text.ofList lexeme) =
        .ok [wrappedNumber.word.tokenAt 0 lexeme.length, Token.endAt lexeme.length] ∧
      wrappedNumber.StandsFor lexeme ∧ (wrappedNumber.kind = .illegal ↔ BeginsNothing c after) := by
  have hlex : lex crampedText = .ok crampedTokens := by decide +kernel
  have hmem : wrappedNumber ∈ crampedTokens := by decide
  have hkind : wrappedNumber.kind ≠ .endOfInput := by decide
  exact ⟨⟨hlex, hmem, hkind⟩, lex_faithful hlex hmem hkind⟩

end ByteLayout
