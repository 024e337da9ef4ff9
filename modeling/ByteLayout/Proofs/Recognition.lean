import ByteLayout.Proofs.Lexing
import ByteLayout.Proofs.Lists

/-!
# What the recognisers answer

The recognisers of lexemes by the texts that they answer for: a body between marks, a name, a
numeral, a name with a size in brackets. Each is found where it stands at the front of a text
(`bodyAt?_append`, `word?_append`, `integer?_append`, `typeArray?_of_bracketed`), and what is found
stands there (`bodyAt?_split`, `word?_split`, `numeral_or_none`). A name and a numeral are found
only where the text does not go on with them.
-/

namespace ByteLayout

open Lexeme

variable {c mark : CodePoint} {cs source rest body sign digits : List CodePoint} {s : Text}
  {l : Lexeme}

/-! ## Characters apart -/

/-- A letter is no character that is none. -/
theorem ne_of_isLetter {x : CodePoint} (hc : isLetter c) (hx : isLetter x = false) : c ≠ x := by
  rintro rfl
  rw [hx] at hc
  cases hc

/-- A digit is none of the other characters. -/
theorem ne_of_isDecimalDigit {x : CodePoint} (hc : Text.isDecimalDigit c)
    (hx : Text.isDecimalDigit x = false) : c ≠ x := by
  rintro rfl
  rw [hx] at hc
  cases hc

/-- A digit is no letter. -/
theorem isLetter_of_isDecimalDigit (hc : Text.isDecimalDigit c) : isLetter c = false := by
  simp only [Text.isDecimalDigit, Bool.and_eq_true, decide_eq_true_eq] at hc
  have high : c.toNat ≤ 57 := hc.2
  have hsmall : ¬ 'a' ≤ c := fun h => by
    have h : 97 ≤ c.toNat := h
    omega
  have hcapital : ¬ 'A' ≤ c := fun h => by
    have h : 65 ≤ c.toNat := h
    omega
  simp [isLetter, hsmall, hcapital]

/-! ## Bodies between marks -/

/-- What stands between two marks is all up to the second one. -/
theorem bodyAt?_append (hne : body ≠ []) (hmark : mark ∉ body) :
    bodyAt? mark (mark :: (body ++ mark :: rest)) = some body := by
  have hbody : ∀ x ∈ body, (x != mark) = true := by
    intro x hx
    rw [bne_iff_ne]
    rintro rfl
    exact hmark hx
  have htake : (body ++ mark :: rest).takeWhile (· != mark) = body :=
    takeWhile_append_stop hbody (by simp)
  have hdrop : (body ++ mark :: rest).dropWhile (· != mark) = mark :: rest :=
    dropWhile_append_stop hbody (by simp)
  obtain ⟨c, cs, rfl⟩ := List.exists_cons_of_ne_nil hne
  rw [bodyAt?, if_pos rfl, htake, hdrop]

/-- Without its opening mark a literal has no body. -/
theorem bodyAt?_of_ne (h : c ≠ mark) : bodyAt? mark (c :: cs) = none := by
  rw [bodyAt?, if_neg h]

/-- A body that is found stands between two marks. -/
theorem bodyAt?_split (h : bodyAt? mark source = some body) :
    ∃ rest, source = mark :: (body ++ mark :: rest) := by
  unfold bodyAt? at h
  split at h
  · cases h
  · next c cs =>
    split at h
    · next hc =>
      split at h
      · cases h
      · cases h
      · next d rest hdrop _ =>
        cases h
        have hd := head_dropWhile (· != mark) cs d (by simp [hdrop])
        obtain rfl : d = mark := by simpa using hd
        refine ⟨rest, ?_⟩
        rw [hc, ← hdrop, List.takeWhile_append_dropWhile]
    · cases h

/-- A mark opens nothing if it is closed at once, or not at all. -/
theorem bodyAt?_eq_none_iff {mark : CodePoint} :
    bodyAt? mark (mark :: rest) = none ↔ rest.head? = some mark ∨ mark ∉ rest := by
  constructor
  · intro h
    by_contra hnot
    obtain ⟨hhead, hmem⟩ := not_or.1 hnot
    obtain ⟨body, more, rfl, hbody⟩ := List.eq_append_cons_of_mem (not_not.1 hmem)
    have hne : body ≠ [] := by
      rintro rfl
      exact hhead rfl
    rw [bodyAt?_append hne hbody] at h
    cases h
  · intro h
    rw [Option.eq_none_iff_forall_ne_some]
    intro body hbody
    obtain ⟨hne, hmark⟩ := bodyAt?_eq_some hbody
    obtain ⟨more, hsource⟩ := bodyAt?_split hbody
    obtain rfl := (List.cons.inj hsource).2
    rcases h with h | h
    · obtain ⟨x, xs, rfl⟩ := List.exists_cons_of_ne_nil hne
      obtain rfl : x = mark := Option.some.inj h
      exact hmark List.mem_cons_self
    · exact h (by simp)

/-- The text up to a mark that it does not hold. -/
theorem takeWhile_body {mark : CodePoint} (h : mark ∉ body) :
    (body ++ mark :: rest).takeWhile (· != mark) = body := by
  refine takeWhile_append_stop (fun x hx => ?_) (by simp)
  rw [bne_iff_ne]
  rintro rfl
  exact h hx

/-! ## Names -/

/-- The word that a name spells. -/
def nameWord (s : Text) : Word :=
  if Text.lower s ∈ typeNames then (.typeName, .text s)
  else if Text.lower s ∈ reservedNames then (.reserved, .text s)
  else match keyword? (Text.lower s) with
    | some kind => (kind, .none)
    | none => (.identifier, .text s)

/-- An identifier is a word of its own kind. -/
theorem nameWord_identifier (h : IsIdentifier s) : nameWord s = (.identifier, .text s) := by
  rw [nameWord, if_neg h.notType, if_neg h.notReserved, h.notKeyword]

/-- A type is a word of its own kind. -/
theorem nameWord_typeName (h : Text.lower s ∈ typeNames) : nameWord s = (.typeName, .text s) := by
  rw [nameWord, if_pos h]

/-- A reserved name is a word of its own kind. -/
theorem nameWord_reserved (h : Text.lower s ∈ reservedNames) :
    nameWord s = (.reserved, .text s) := by
  have hall : ∀ word ∈ reservedNames, word ∉ typeNames := by decide
  rw [nameWord, if_neg (hall _ h), if_pos h]

/-- A name before a text that does not go on with it is found. -/
theorem nameAt?_append (hs : IsName s) (hrest : ∀ x ∈ rest.head?, isNameChar x = false) :
    nameAt? (s.toList ++ rest) = some s.toList := by
  obtain ⟨c, cs, hs, hc, hcs⟩ := hs
  rw [hs, List.cons_append, nameAt?, if_pos hc, takeWhile_append_stop hcs hrest]

/-- A name that is found stands at the front, and the text does not go on with it. -/
theorem nameAt?_split (h : nameAt? source = some cs) : ∃ (s : Text) (rest : List CodePoint),
    cs = s.toList ∧ source = s.toList ++ rest ∧ IsName s ∧
      ∀ x ∈ rest.head?, isNameChar x = false := by
  have hname := nameAt?_eq_some h
  unfold nameAt? at h
  split at h
  · cases h
  · next c more =>
    split at h
    · next hc =>
      cases h
      obtain ⟨rest, hsplit, -, hrest⟩ := takeWhile_split isNameChar more
      refine ⟨_, rest, Text.toList_ofList.symm, ?_, hname, hrest⟩
      rw [Text.toList_ofList, List.cons_append, ← hsplit]
    · cases h

/-- A name begins with a letter. -/
theorem nameAt?_of_not_letter (h : isLetter c = false) : nameAt? (c :: cs) = none := by
  rw [nameAt?, if_neg (by simp [h])]

/-- A name is one lexeme, whose word is that of the name. -/
theorem word?_append (hs : IsName s) (hrest : ∀ x ∈ rest.head?, isNameChar x = false) :
    ∃ l, word? (s.toList ++ rest) = some l ∧ l.word = nameWord s ∧ l.size = s.toList.length := by
  have hname := nameAt?_append hs hrest
  obtain ⟨c, cs, hlist, -, -⟩ := hs
  have hspelling : Text.ofList (c :: cs) = s := by rw [← hlist, Text.ofList_toList]
  rw [hlist] at hname ⊢
  by_cases htype : Text.lower s ∈ typeNames
  · refine ⟨.mk .typeName (.text s) (cs.length + 1) (by omega), ?_, ?_, rfl⟩
    · simp only [word?, hname, hspelling, if_pos htype]
    · rw [nameWord_typeName htype]
      rfl
  by_cases hreserved : Text.lower s ∈ reservedNames
  · refine ⟨.mk .reserved (.text s) (cs.length + 1) (by omega), ?_, ?_, rfl⟩
    · simp only [word?, hname, hspelling, if_neg htype, if_pos hreserved]
    · rw [nameWord_reserved hreserved]
      rfl
  cases hkeyword : keyword? (Text.lower s) with
  | some kind =>
    refine ⟨.mk kind .none (cs.length + 1) (by omega), ?_, ?_, rfl⟩
    · simp only [word?, hname, hspelling, if_neg htype, if_neg hreserved, hkeyword]
    · simp only [nameWord, if_neg htype, if_neg hreserved, hkeyword]
      rfl
  | none =>
    refine ⟨.mk .identifier (.text s) (cs.length + 1) (by omega), ?_, ?_, rfl⟩
    · simp only [word?, hname, hspelling, if_neg htype, if_neg hreserved, hkeyword]
    · simp only [nameWord, if_neg htype, if_neg hreserved, hkeyword]
      rfl

/-- A lexeme that is a name is the word of the name at the front. -/
theorem word?_split (h : word? source = some l) : ∃ (s : Text) (rest : List CodePoint),
    source = s.toList ++ rest ∧ IsName s ∧ (∀ x ∈ rest.head?, isNameChar x = false) ∧
      l.word = nameWord s ∧ l.size = s.toList.length := by
  have hfound : ∃ cs, nameAt? source = some cs := by
    cases hname : nameAt? source with
    | none => simp [word?, hname] at h
    | some cs => exact ⟨cs, rfl⟩
  obtain ⟨cs, hname⟩ := hfound
  obtain ⟨s, rest, -, rfl, hs, hrest⟩ := nameAt?_split hname
  obtain ⟨l', hl', hword, hsize⟩ := word?_append hs hrest
  rw [h] at hl'
  cases hl'
  exact ⟨s, rest, rfl, hs, hrest, hword, hsize⟩

/-- So does a word. -/
theorem word?_of_not_letter (h : isLetter c = false) : word? (c :: cs) = none := by
  rw [word?, nameAt?_of_not_letter h]

/-! ## Numerals -/

/-- Digits, at least one, and perhaps a minus sign before them. -/
structure IsNumeral (sign digits : List CodePoint) : Prop where
  /-- The sign is missing or a minus. -/
  sign : sign = [] ∨ sign = [scalar '-']
  /-- There is a digit. -/
  ne_nil : digits ≠ []
  /-- The digits are decimal. -/
  isDigit : ∀ d ∈ digits, Text.isDecimalDigit d

/-- The value of a numeral, of which the low 64 bits are kept. -/
def numeralValue (sign digits : List CodePoint) : Int :=
  Text.wrap64 (if sign = [] then Text.ofDigits 10 digits else -Text.ofDigits 10 digits)

/-- Only a minus is a sign. -/
theorem signAt_of_ne (h : c ≠ '-') : signAt (c :: cs) = ([], c :: cs) := by
  unfold signAt
  split
  · next heq => exact absurd (List.cons.inj heq).1 h
  · rfl

/-- The sign is taken off the front of a numeral. -/
theorem IsNumeral.signAt (h : IsNumeral sign digits) :
    Lexeme.signAt (sign ++ (digits ++ rest)) = (sign, digits ++ rest) := by
  rcases h.sign with rfl | rfl
  · obtain ⟨d, ds, rfl⟩ := List.exists_cons_of_ne_nil h.ne_nil
    exact signAt_of_ne (ne_of_isDecimalDigit (h.isDigit d List.mem_cons_self) (by decide))
  · rfl

/-- A sign is taken off the front of every text, or nothing is. -/
theorem signAt_split (source : List CodePoint) : source = (signAt source).1 ++ (signAt source).2 ∧
    ((signAt source).1 = [] ∨ (signAt source).1 = [scalar '-']) := by
  unfold signAt
  split
  · exact ⟨rfl, .inr rfl⟩
  · exact ⟨rfl, .inl rfl⟩

/-- A text begins with a numeral, or no digit follows its sign. -/
theorem numeral_or_none (source : List CodePoint) :
    (∃ sign digits rest, source = sign ++ (digits ++ rest) ∧ IsNumeral sign digits ∧
      ∀ x ∈ rest.head?, Text.isDecimalDigit x = false) ∨
    ∀ x ∈ (signAt source).2.head?, Text.isDecimalDigit x = false := by
  obtain ⟨hsource, hsign⟩ := signAt_split source
  obtain ⟨rest, hsplit, hdigits, hrest⟩ := takeWhile_split Text.isDecimalDigit (signAt source).2
  by_cases hne : (signAt source).2.takeWhile Text.isDecimalDigit = []
  · rw [hne, List.nil_append] at hsplit
    rw [hsplit]
    exact .inr hrest
  · refine .inl ⟨_, _, rest, ?_, ⟨hsign, hne, hdigits⟩, hrest⟩
    rw [← hsplit, ← hsource]

/-- A numeral before a text that does not go on with it is one lexeme, if it is not too long. -/
theorem integer?_append (h : IsNumeral sign digits)
    (hrest : ∀ x ∈ rest.head?, Text.isDecimalDigit x = false) :
    integer? (sign ++ (digits ++ rest)) =
      if digits.length ≤ Text.digitLimit then
        .ok (some (.mk .integer (.integer (numeralValue sign digits)) (sign ++ digits).length
          (List.length_pos_iff.2 (List.append_ne_nil_of_right_ne_nil sign h.ne_nil))))
      else .error ⟨digits.length⟩ := by
  have htake := takeWhile_append_stop h.isDigit hrest
  have hsign : signAt (sign ++ (digits ++ rest)) = (sign, digits ++ rest) := h.signAt
  obtain ⟨d, ds, rfl⟩ := List.exists_cons_of_ne_nil h.ne_nil
  unfold integer?
  simp only [hsign, htake]
  by_cases hlen : (d :: ds).length ≤ Text.digitLimit
  · have hread : Text.readDecimal (d :: ds) = .ok (Text.ofDigits 10 (d :: ds)) := if_pos hlen
    rw [if_pos hlen]
    simp only [hread, numeralValue, List.length_append, List.length_cons]
  · have hread : Text.readDecimal (d :: ds) = .error (d :: ds).length := if_neg hlen
    simp only [hread, if_neg hlen]

/-- Where no digit follows the sign there is no integer. -/
theorem integer?_of_no_digit
    (h : ∀ x ∈ (signAt source).2.head?, Text.isDecimalDigit x = false) :
    integer? source = .ok none := by
  have htake : (signAt source).2.takeWhile Text.isDecimalDigit = [] :=
    takeWhile_append_stop (List.forall_mem_nil _) h
  unfold integer?
  simp only [htake]

/-- A lexeme that is an integer is the numeral at the front. -/
theorem integer?_split (h : integer? source = .ok (some l)) : ∃ sign digits rest,
    source = sign ++ (digits ++ rest) ∧ IsNumeral sign digits ∧ digits.length ≤ Text.digitLimit ∧
      (∀ x ∈ rest.head?, Text.isDecimalDigit x = false) ∧
      l.word = (.integer, .integer (numeralValue sign digits)) ∧
      l.size = (sign ++ digits).length := by
  rcases numeral_or_none source with ⟨sign, digits, rest, rfl, hnumeral, hrest⟩ | hnone
  · rw [integer?_append hnumeral hrest] at h
    split at h
    · next hlen =>
      cases h
      exact ⟨sign, digits, rest, rfl, hnumeral, hlen, hrest, rfl, rfl⟩
    · cases h
  · rw [integer?_of_no_digit hnone] at h
    cases h

/-- There is no integer exactly if no digit stands behind the sign. -/
theorem integer?_eq_none_iff : integer? source = .ok none ↔
    ∀ x ∈ (signAt source).2.head?, Text.isDecimalDigit x = false := by
  refine ⟨fun h => ?_, integer?_of_no_digit⟩
  rcases numeral_or_none source with ⟨sign, digits, rest, rfl, hnumeral, hrest⟩ | hnone
  · rw [integer?_append hnumeral hrest] at h
    split at h <;> cases h
  · exact hnone

/-- An integer begins with a digit or a minus. -/
theorem integer?_of_ne (hc : Text.isDecimalDigit c = false) (hminus : c ≠ '-') :
    integer? (c :: cs) = .ok none := by
  refine integer?_of_no_digit ?_
  rw [signAt_of_ne hminus]
  simpa using hc

/-! ## Sizes in brackets -/

/-- A numeral in brackets at the front of a text. -/
def Bracketed (sign digits rest : List CodePoint) : Prop :=
  IsNumeral sign digits ∧ ∃ more, rest = scalar '[' :: (sign ++ (digits ++ scalar ']' :: more))

/-- No numeral in brackets at the front of the text makes an array type with a name before it: all
that are there have more than 32 bits. -/
def NoSize (rest : List CodePoint) : Prop :=
  ∀ sign digits, Bracketed sign digits rest →
    digits.length ≤ Text.digitLimit ∧ 0xFFFFFFFF < Text.ofDigits 10 digits

/-- The name of an array type is read with the size in brackets after it. -/
theorem typeArray?_of_bracketed (hs : IsName s) (h : Bracketed sign digits rest) :
    typeArray? (s.toList ++ rest) =
      if digits.length ≤ Text.digitLimit then
        if Text.ofDigits 10 digits ≤ 0xFFFFFFFF then
          .ok (some (.mk .typeArray (.sized s (Text.ofDigits 10 digits))
            (s.toList ++ scalar '[' :: (sign ++ (digits ++ [scalar ']']))).length
            (List.length_pos_iff.2 (List.append_ne_nil_of_right_ne_nil _ (List.cons_ne_nil _ _)))))
        else .ok none
      else .error ⟨digits.length⟩ := by
  obtain ⟨hnumeral, more, rfl⟩ := h
  have hname : nameAt? (s.toList ++ scalar '[' :: (sign ++ (digits ++ scalar ']' :: more))) =
      some s.toList :=
    nameAt?_append hs (by simp; decide)
  have htake : (digits ++ scalar ']' :: more).takeWhile Text.isDecimalDigit = digits :=
    takeWhile_append_stop hnumeral.isDigit (by simp; decide)
  have hsign : signAt (sign ++ (digits ++ scalar ']' :: more)) =
      (sign, digits ++ scalar ']' :: more) :=
    hnumeral.signAt
  obtain ⟨d, ds, rfl⟩ := List.exists_cons_of_ne_nil hnumeral.ne_nil
  have hdrop : (d :: ds ++ scalar ']' :: more).drop (d :: ds).length = scalar ']' :: more :=
    List.drop_left
  unfold typeArray?
  simp only [hname, List.drop_left, hsign, htake, hdrop]
  by_cases hlen : (d :: ds).length ≤ Text.digitLimit
  · have hread : Text.readDecimal (d :: ds) = .ok (Text.ofDigits 10 (d :: ds)) := if_pos hlen
    have hsize : s.toList.length + 1 + sign.length + (d :: ds).length + 1 =
        (s.toList ++ scalar '[' :: (sign ++ (d :: ds ++ [scalar ']']))).length := by
      simp only [List.length_append, List.length_cons, List.length_nil]
      omega
    simp only [hread, if_pos hlen, Text.ofList_toList, hsize]
  · have hread : Text.readDecimal (d :: ds) = .error (d :: ds).length := if_neg hlen
    simp only [hread, if_neg hlen]

/-- A name without a size in brackets after it is no array type. -/
theorem typeArray?_of_not_bracketed (hs : IsName s)
    (hrest : ∀ x ∈ rest.head?, isNameChar x = false)
    (h : ∀ sign digits, ¬ Bracketed sign digits rest) :
    typeArray? (s.toList ++ rest) = .ok none := by
  unfold typeArray?
  simp only [nameAt?_append hs hrest, List.drop_left]
  split
  · next inner =>
    split
    · next d ds more htake hdrop =>
      obtain ⟨hinner, hsign⟩ := signAt_split inner
      obtain ⟨after, hsplit, hdigits, -⟩ := takeWhile_split Text.isDecimalDigit (signAt inner).2
      rw [htake] at hsplit hdigits
      rw [htake, hsplit, List.drop_left] at hdrop
      refine absurd ⟨⟨hsign, List.cons_ne_nil d ds, hdigits⟩, more, ?_⟩
        (h (signAt inner).1 (d :: ds))
      rw [← hdrop, ← hsplit, ← hinner]
    · rfl
  · rfl

/-- A lexeme that is an array type is the name at the front and the size in brackets after it. -/
theorem typeArray?_split (h : typeArray? source = .ok (some l)) :
    ∃ (s : Text) (sign digits more : List CodePoint),
      source = s.toList ++ scalar '[' :: (sign ++ (digits ++ scalar ']' :: more)) ∧ IsName s ∧
      IsNumeral sign digits ∧ digits.length ≤ Text.digitLimit ∧
      Text.ofDigits 10 digits ≤ 0xFFFFFFFF ∧
      l.word = (.typeArray, .sized s (Text.ofDigits 10 digits)) ∧
      l.size = (s.toList ++ scalar '[' :: (sign ++ (digits ++ [scalar ']']))).length := by
  cases hname : nameAt? source with
  | none => simp [typeArray?, hname] at h
  | some cs =>
    obtain ⟨s, rest, -, rfl, hs, hrest⟩ := nameAt?_split hname
    by_cases hany : ∃ sign digits, Bracketed sign digits rest
    · obtain ⟨sign, digits, hb⟩ := hany
      rw [typeArray?_of_bracketed hs hb] at h
      obtain ⟨hnumeral, more, rfl⟩ := hb
      split at h
      · next hlen =>
        split at h
        · next hsize =>
          cases h
          exact ⟨s, sign, digits, more, rfl, hs, hnumeral, hlen, hsize, rfl, rfl⟩
        · cases h
      · cases h
    · rw [typeArray?_of_not_bracketed hs hrest fun sign digits hb => hany ⟨sign, digits, hb⟩] at h
      cases h

/-- An array begins with a letter. -/
theorem typeArray?_of_not_letter (h : isLetter c = false) : typeArray? (c :: cs) = .ok none := by
  rw [typeArray?, nameAt?_of_not_letter h]

/-- A name is no array type exactly if no size is after it. -/
theorem typeArray?_eq_none_iff (hs : IsName s)
    (hrest : ∀ x ∈ rest.head?, isNameChar x = false) :
    typeArray? (s.toList ++ rest) = .ok none ↔ NoSize rest := by
  constructor
  · intro hnone sign digits h
    rw [typeArray?_of_bracketed hs h] at hnone
    split at hnone
    · next hlen =>
      split at hnone
      · cases hnone
      · next hsize => exact ⟨hlen, Nat.lt_of_not_le hsize⟩
    · cases hnone
  · intro h
    by_cases hany : ∃ sign digits, Bracketed sign digits rest
    · obtain ⟨sign, digits, hb⟩ := hany
      obtain ⟨hlen, hsize⟩ := h sign digits hb
      rw [typeArray?_of_bracketed hs hb, if_pos hlen, if_neg (Nat.not_le.2 hsize)]
    · exact typeArray?_of_not_bracketed hs hrest fun sign digits hb => hany ⟨sign, digits, hb⟩

end ByteLayout
