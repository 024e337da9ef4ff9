import Mathlib.Algebra.Group.Int.Defs
import Mathlib.Algebra.Group.Nat.Defs
import Mathlib.Data.List.TakeWhile
import ByteLayout.Text.Encoding
import ByteLayout.Proofs.Numerals

/-!
# What can be written

A text is encoded exactly if its codec covers all of its code points (`encode_eq_ok_iff`); in UTF-8
these are the texts of characters (`utf8_eq_ok_iff`). A number is written in decimal unless it is
too long (`writeDecimal_of_not_tooLong`, `writeDecimal_of_tooLong`), which no number of 64 bits is.
-/

namespace ByteLayout.Text

variable {codec : Codec} {text : List CodePoint} {bytes : List UInt8} {n : Int}

/-! ## Texts -/

/-- A text is encoded exactly if all of its code points are covered. -/
theorem encode_eq_ok_iff : encode codec text = .ok bytes ↔
    (∀ c ∈ text, codec.covers c) ∧ utf8Chars (text.filterMap CodePoint.scalar?) = bytes := by
  unfold encode
  cases hrest : text.dropWhile codec.covers with
  | nil =>
    have hall := List.dropWhile_eq_nil_iff.1 hrest
    simpa using fun _ => hall
  | cons c after =>
    refine iff_of_false (fun h => nomatch h) fun h => ?_
    rw [List.dropWhile_eq_nil_iff.2 h.1] at hrest
    cases hrest

/-- The characters of a run of characters. -/
@[simp] theorem filterMap_scalar?_map (cs : List Char) :
    (cs.map CodePoint.scalar).filterMap CodePoint.scalar? = cs := by
  rw [List.filterMap_map]
  exact List.filterMap_some

/-- A run of characters has bytes in UTF-8. -/
@[simp] theorem encode_utf8_map (cs : List Char) :
    encode .utf8 (cs.map .scalar) = .ok (utf8Chars cs) :=
  encode_eq_ok_iff.2 ⟨by simp [Codec.covers, CodePoint.isSurrogate],
    by rw [filterMap_scalar?_map]⟩

/-- A text of characters has bytes in UTF-8. -/
@[simp] theorem utf8_ofString (s : String) : utf8 s = .ok (utf8Chars s.toList) :=
  encode_utf8_map s.toList

/-- Code points that UTF-8 covers are those of their characters. -/
theorem map_scalar_filterMap (h : ∀ c ∈ text, Codec.utf8.covers c) :
    (text.filterMap CodePoint.scalar?).map .scalar = text := by
  induction text with
  | nil => rfl
  | cons c text ih =>
    rw [List.forall_mem_cons] at h
    cases c with
    | scalar c =>
      rw [List.filterMap_cons, CodePoint.scalar?_scalar, List.map_cons, ih h.2]
    | surrogate i => cases h.1

/-- The texts with bytes in UTF-8 are those of characters, and have the bytes of these. -/
theorem utf8_eq_ok_iff {text : Text} :
    utf8 text = .ok bytes ↔ ∃ s : String, text = s ∧ bytes = utf8Chars s.toList := by
  constructor
  · intro h
    obtain ⟨hall, rfl⟩ := encode_eq_ok_iff.1 h
    refine ⟨String.ofList (text.toList.filterMap CodePoint.scalar?), ?_, ?_⟩
    · rw [← toList_inj, toList_ofString, String.toList_ofList, map_scalar_filterMap hall]
    · rw [String.toList_ofList]
  · rintro ⟨s, rfl, rfl⟩
    exact utf8_ofString s

/-- The codes of some code points below 256 as bytes. -/
def codes (text : List CodePoint) : List UInt8 :=
  text.map fun c => UInt8.ofNat c.toNat

/-- A code point of ASCII is a character of one byte, which is its code. -/
theorem exists_scalar_of_ascii {c : CodePoint} (h : c.toNat < 0x80) :
    ∃ x, c = scalar x ∧ String.utf8EncodeChar x = [UInt8.ofNat c.toNat] := by
  cases c with
  | scalar x =>
    have hsmall : x.val ≤ 127 := UInt32.le_iff_toNat_le.2 (Nat.le_of_lt_succ h)
    exact ⟨x, rfl, String.utf8EncodeChar_eq_singleton (Char.utf8Size_eq_one_iff.2 hsmall)⟩
  | surrogate i =>
    have hnumber : 0xD800 + i.val < 0x80 := h
    omega

/-- A text of ASCII is encoded as its codes. -/
theorem encode_ascii (h : ∀ c ∈ text, c.toNat < 0x80) : encode .ascii text = .ok (codes text) := by
  refine encode_eq_ok_iff.2 ⟨fun c hc => decide_eq_true (h c hc), ?_⟩
  induction text with
  | nil => rfl
  | cons c text ih =>
    rw [List.forall_mem_cons] at h
    obtain ⟨x, rfl, hx⟩ := exists_scalar_of_ascii h.1
    rw [List.filterMap_cons, CodePoint.scalar?_scalar, utf8Chars, List.flatMap_cons, hx]
    exact congrArg _ (ih h.2)

@[simp] theorem length_codes : (codes text).length = text.length :=
  List.length_map _

/-! ## Numbers -/

/-- The number has more decimal digits than are written. -/
def TooLong (n : Int) : Prop :=
  10 ^ digitLimit ≤ n.natAbs

/-- A number that is not too long has no more digits than the limit. -/
theorem not_tooLong_iff : ¬ TooLong n ↔ (naturalDigits 10 n.natAbs).length ≤ digitLimit := by
  have hlimit : 0 < digitLimit := by decide
  rw [TooLong, Nat.not_le, ← Nat.length_toDigits_le_iff (by decide) hlimit, length_naturalDigits]

/-- A number that is not too long has its numeral. -/
theorem writeDecimal_of_not_tooLong (h : ¬ TooLong n) : writeDecimal n = .ok (decimal n) :=
  if_pos (not_tooLong_iff.1 h)

/-- A number that is too long has no numeral. -/
theorem writeDecimal_of_tooLong (h : TooLong n) : writeDecimal n = .error .tooManyDigits :=
  if_neg fun hlength => not_tooLong_iff.2 hlength h

/-- A number of 64 bits is not too long. -/
theorem not_tooLong_of_natAbs_le (h : n.natAbs ≤ 2 ^ 64) : ¬ TooLong n := by
  have hlimit : 10 ^ 20 ≤ 10 ^ digitLimit := Nat.pow_le_pow_right (by decide) (by decide)
  have hbits : 2 ^ 64 < 10 ^ 20 := by decide
  exact Nat.not_le.2 (Nat.lt_of_le_of_lt h (Nat.lt_of_lt_of_le hbits hlimit))

end ByteLayout.Text
