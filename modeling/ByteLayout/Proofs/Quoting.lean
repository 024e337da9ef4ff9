import ByteLayout.Proofs.Lists
import ByteLayout.Proofs.Numerals
import ByteLayout.Text.Quoted

/-!
# Quoted texts are told apart

Between two quotation marks every character stands for itself or is hidden behind a backslash.
`frontChar?` reads the character at the front of such a text, without regard to how it came there.
Since it finds every character again, the ways in which characters stand between two marks are a
`PrefixCode`: a row of them that ends with the mark is a row of only one text.

`quoteChars_append_unique` and `quoteBytes_injective`: a quoted text or a quoted run of bytes tells
what was quoted, a text even if more characters follow its second mark. `isPrintable_quote` and
`isPrintable_quoteBytes`: no hidden character is left in them.
-/

namespace ByteLayout

namespace Text

variable {mark c : CodePoint} {rest : List CodePoint} {n : Nat}

/-! ## Printable characters -/

theorem isPrintable_of_isHexDigit (h : isHexDigit c) : isPrintable c := by
  have hrange : 48 ≤ c.toNat ∧ c.toNat ≤ 102 := by
    simp only [isHexDigit, isDecimalDigit, Bool.or_eq_true, Bool.and_eq_true,
      decide_eq_true_eq] at h
    obtain (⟨hlow, hhigh⟩ | ⟨hlow, hhigh⟩) | ⟨hlow, hhigh⟩ := h
    · have hlow : 48 ≤ c.toNat := hlow
      have hhigh : c.toNat ≤ 57 := hhigh
      omega
    · have hlow : 97 ≤ c.toNat := hlow
      have hhigh : c.toNat ≤ 102 := hhigh
      omega
    · have hlow : 65 ≤ c.toNat := hlow
      have hhigh : c.toNat ≤ 70 := hhigh
      omega
  rw [isPrintable_of_ascii (by omega)]
  exact decide_eq_true (by omega)

/-- The digits of an escape are printable. -/
theorem isPrintable_hexOfWidth (width n : Nat) : ∀ c ∈ hexOfWidth width n, isPrintable c :=
  fun c hc => isPrintable_of_isHexDigit (isHexDigit_hexOfWidth width n c hc)

/-- The digits of a number are printable. -/
theorem isPrintable_numeralDigits (n : Int) : ∀ c ∈ numeralDigits 10 n, isPrintable c := by
  have hdigits : ∀ c ∈ naturalDigits 10 n.natAbs, isPrintable c := by
    intro c hc
    have hdigit := isDecimalDigit_naturalDigits n.natAbs c hc
    exact isPrintable_of_isHexDigit (by simp [isHexDigit, hdigit])
  unfold numeralDigits
  split
  · exact List.forall_mem_cons.2 ⟨by decide, hdigits⟩
  · exact hdigits

/-- A quotation mark is an apostrophe or a double quote. -/
theorem quotationMark_cases (text : List CodePoint) :
    quotationMark text = apostrophe ∨ quotationMark text = '"' := by
  unfold quotationMark
  split
  · exact .inr rfl
  · exact .inl rfl

/-- Both quotation marks are printable. -/
theorem isPrintable_quotationMark (text : List CodePoint) : isPrintable (quotationMark text) := by
  rcases quotationMark_cases text with h | h <;> rw [h] <;> decide

/-- No hidden character is left between two quotation marks. -/
theorem isPrintable_quoteChar (hmark : isPrintable mark) (c : CodePoint) :
    ∀ x ∈ quoteChar mark c, isPrintable x := by
  have hescape : isPrintable '\\' := by decide
  unfold quoteChar escape
  split_ifs with hmarked hfeed hreturn htab hshown hbyte hshort
  · rcases hmarked with rfl | rfl <;> simp [hmark, hescape]
  · exact List.all_eq_true.1 (by decide)
  · exact List.all_eq_true.1 (by decide)
  · exact List.all_eq_true.1 (by decide)
  · simpa using hshown
  · simpa [hescape] using ⟨(by decide : isPrintable 'x'), isPrintable_hexOfWidth 2 c.toNat⟩
  · simpa [hescape] using ⟨(by decide : isPrintable 'u'), isPrintable_hexOfWidth 4 c.toNat⟩
  · simpa [hescape] using ⟨(by decide : isPrintable 'U'), isPrintable_hexOfWidth 8 c.toNat⟩

/-- A byte is quoted with printable characters. -/
theorem isPrintable_quoteByte (hmark : isPrintable mark) (b : UInt8) :
    ∀ x ∈ quoteByte mark b, isPrintable x := by
  unfold quoteByte
  split
  · exact isPrintable_quoteChar hmark _
  · rw [List.forall_mem_cons, List.forall_mem_cons]
    exact ⟨by decide, by decide, isPrintable_hexOfWidth 2 b.toNat⟩

/-- A quoted text is printable. -/
theorem isPrintable_quote (text : Text) : ∀ c ∈ (quote text).toList, isPrintable c := by
  have hmark := isPrintable_quotationMark text.toList
  rw [quote, Text.toList_ofList, quoteChars, List.forall_mem_append, List.forall_mem_cons,
    List.forall_mem_singleton]
  refine ⟨⟨hmark, fun c hc => ?_⟩, hmark⟩
  obtain ⟨x, -, hc⟩ := List.mem_flatMap.1 hc
  exact isPrintable_quoteChar hmark x c hc

/-- Quoted bytes are printable. -/
theorem isPrintable_quoteBytes (bytes : List UInt8) :
    ∀ c ∈ (quoteBytes bytes).toList, isPrintable c := by
  have hmark := isPrintable_quotationMark (bytes.map fun b => Char.ofNat b.toNat)
  rw [quoteBytes, Text.toList_ofList, List.forall_mem_cons, List.forall_mem_append,
    List.forall_mem_cons, List.forall_mem_singleton]
  refine ⟨by decide, ⟨hmark, fun c hc => ?_⟩, hmark⟩
  obtain ⟨b, -, hc⟩ := List.mem_flatMap.1 hc
  exact isPrintable_quoteByte hmark b c hc

/-! ## Characters are read back -/

/-- The code point of so many hexadecimal digits. -/
def hexChar (width : Nat) (digits : List CodePoint) : CodePoint :=
  .ofNat (ofDigits 16 (digits.take width))

/-- The character at the front of a text between quotation marks. Behind a backslash a letter stands
for a line feed, a return or a tab, or it tells how many digits of a code point follow it; any other
character stands for itself. -/
def frontChar? : List CodePoint → Option CodePoint
  | [] => none
  | [c] => some c
  | c :: d :: rest =>
    if c ≠ '\\' then some c
    else if d = 'n' then some (scalar '\n')
    else if d = 'r' then some (scalar '\r')
    else if d = 't' then some (scalar '\t')
    else if d = 'x' then some (hexChar 2 rest)
    else if d = 'u' then some (hexChar 4 rest)
    else if d = 'U' then some (hexChar 8 rest)
    else some d

/-- Without a backslash the first character stands for itself. -/
theorem frontChar?_of_ne (h : c ≠ '\\') (rest : List CodePoint) :
    frontChar? (c :: rest) = some c := by
  cases rest with
  | nil => rfl
  | cons d rest => rw [frontChar?, if_pos h]

/-- The digits of a code point are read back, if there are enough of them. -/
theorem hexChar_hexOfWidth {width : Nat} (h : c.toNat < Nat.pow 16 width) (rest : List CodePoint) :
    hexChar width (hexOfWidth width c.toNat ++ rest) = c := by
  rw [hexChar, List.take_left' (length_hexOfWidth _ _), ofDigits_hexOfWidth, Nat.mod_eq_of_lt h,
    CodePoint.ofNat_toNat]

/-- A character is read off the way in which it stands between two marks. -/
theorem frontChar?_quoteChar (hmark : mark = apostrophe ∨ mark = '"') (c : CodePoint)
    (rest : List CodePoint) : frontChar? (quoteChar mark c ++ rest) = some c := by
  unfold quoteChar escape
  split_ifs with hmarked hfeed hreturn htab hshown hbyte hshort
  · rcases hmarked with rfl | rfl
    · rcases hmark with rfl | rfl <;> rfl
    · rfl
  · rw [hfeed]
    rfl
  · rw [hreturn]
    rfl
  · rw [htab]
    rfl
  · exact frontChar?_of_ne (fun h => hmarked (.inr h)) rest
  · exact congrArg some (hexChar_hexOfWidth hbyte rest)
  · exact congrArg some (hexChar_hexOfWidth hshort rest)
  · have hlong : c.toNat < 4294967296 := Nat.lt_trans c.toNat_lt (by decide)
    exact congrArg some (hexChar_hexOfWidth hlong rest)

/-- A byte is read off the way in which it stands between two marks. -/
theorem frontChar?_quoteByte (hmark : mark = apostrophe ∨ mark = '"') (b : UInt8)
    (rest : List CodePoint) :
    frontChar? (quoteByte mark b ++ rest) = some (scalar (Char.ofNat b.toNat)) := by
  unfold quoteByte
  split
  · exact frontChar?_quoteChar hmark _ rest
  · have hread : hexChar 2 (hexByte b ++ rest) = scalar (Char.ofNat b.toNat) := by
      have htake : (hexByte b ++ rest).take 2 = hexByte b :=
        List.take_left' (length_hexOfWidth 2 b.toNat)
      rw [hexChar, htake, ofDigits_hexByte,
        CodePoint.ofNat_of_lt (Nat.lt_trans b.toNat_lt (by decide))]
    exact congrArg some hread

/-- No quoted character begins with the closing mark. -/
theorem quoteChar_ne_mark (hmark : mark = apostrophe ∨ mark = '"') {c : CodePoint}
    {x y : List CodePoint} : quoteChar mark c ++ x ≠ mark :: y := by
  have hescape : scalar '\\' ≠ mark := by rcases hmark with rfl | rfl <;> decide
  unfold quoteChar escape
  split_ifs with hmarked <;> simp_all

/-- Quoted characters are told apart from the left, and from the closing mark. -/
theorem prefixCode_quoteChar (hmark : mark = apostrophe ∨ mark = '"') :
    PrefixCode (fun code c => code = quoteChar mark c) mark where
  unique := by
    rintro _ _ a b x y rfl rfl h
    have hread := frontChar?_quoteChar hmark a x
    rw [h, frontChar?_quoteChar hmark b y] at hread
    obtain rfl := Option.some.inj hread
    exact ⟨rfl, rfl⟩
  ne_mark := by
    rintro _ c x y rfl
    exact quoteChar_ne_mark hmark

theorem toNat_ofNat {n : Nat} (h : n.isValidChar) : (Char.ofNat n).toNat = n := by
  rw [Char.ofNat, dif_pos h]
  rfl

/-- Different bytes are different characters. -/
theorem byte_eq_of_ofNat_eq {a b : UInt8} (h : Char.ofNat a.toNat = Char.ofNat b.toNat) :
    a = b := by
  have hpoint : ∀ b : UInt8, (Char.ofNat b.toNat).toNat = b.toNat := fun b =>
    toNat_ofNat (.inl (Nat.lt_trans b.toNat_lt (by decide)))
  have hnat := congrArg Char.toNat h
  rw [hpoint, hpoint] at hnat
  exact UInt8.toNat_inj.1 hnat

/-- So are quoted bytes. -/
theorem prefixCode_quoteByte (hmark : mark = apostrophe ∨ mark = '"') :
    PrefixCode (fun code b => code = quoteByte mark b) mark where
  unique := by
    rintro _ _ a b x y rfl rfl h
    have hread := frontChar?_quoteByte hmark a x
    rw [h, frontChar?_quoteByte hmark b y] at hread
    obtain rfl := byte_eq_of_ofNat_eq (CodePoint.scalar.inj (Option.some.inj hread))
    exact ⟨rfl, rfl⟩
  ne_mark := by
    rintro _ b x y rfl
    unfold quoteByte
    split
    · exact quoteChar_ne_mark hmark
    · have hescape : scalar '\\' ≠ mark := by rcases hmark with rfl | rfl <;> decide
      exact fun h => hescape (List.cons.inj h).1

/-! ## Texts are read back -/

/-- A quoted text tells what was quoted, and where it ends. -/
theorem quoteChars_append_unique {text other x y : List CodePoint}
    (h : quoteChars text ++ x = quoteChars other ++ y) : text = other ∧ x = y := by
  simp only [quoteChars, List.cons_append, List.append_assoc] at h
  obtain ⟨hmark, hbody⟩ := List.cons.inj h
  rw [← hmark] at hbody
  have hcode := prefixCode_quoteChar (quotationMark_cases text)
  exact hcode.row_unique (.of_flatMap (fun c => Eq.refl (quoteChar _ c)) text)
    (.of_flatMap (fun c => Eq.refl (quoteChar _ c)) other) hbody

/-- A quoted text tells the text. -/
theorem quote_injective {text other : Text} (h : quote text = quote other) : text = other := by
  rw [quote, quote, Text.ofList_inj] at h
  exact Text.toList_inj.1 (quoteChars_append_unique (congrArg (· ++ []) h)).1

/-- Quoted bytes tell the bytes. -/
theorem quoteBytes_injective {bytes other : List UInt8} (h : quoteBytes bytes = quoteBytes other) :
    bytes = other := by
  simp only [quoteBytes, Text.ofList_inj, List.cons_append, List.cons.injEq, true_and] at h
  obtain ⟨hmark, hbody⟩ := h
  rw [← hmark] at hbody
  have hcode := prefixCode_quoteByte (quotationMark_cases (bytes.map fun b => Char.ofNat b.toNat))
  exact (hcode.row_unique (.of_flatMap (fun b => Eq.refl (quoteByte _ b)) bytes)
    (.of_flatMap (fun b => Eq.refl (quoteByte _ b)) other) hbody).1

end Text

end ByteLayout
