import Mathlib.Data.List.TakeWhile
import ByteLayout.Text.Utf8

/-!
# Texts as bytes and back

A text is read back from its UTF-8. `IsSequence lead more c` says that the reader finds a byte and
some bytes after it to be those of a character, and `exists_isSequence` that every character is
written as such bytes.

`decodeUtf8_utf8Chars`: what is written is read back, without a fault.
-/

namespace ByteLayout.Text

variable {c : Char} {n m start : Nat} {lead : UInt8} {more rest : List UInt8} {read : List Char}

/-! ## Single bytes -/

/-- The length of a sequence is told by its first byte. -/
theorem sequenceLength_ofNat (h : n < 256) : sequenceLength (UInt8.ofNat n) =
    if n < 0x80 then 1 else if n < 0xC2 then 0 else if n < 0xE0 then 2 else if n < 0xF0 then 3
      else if n < 0xF5 then 4 else 0 := by
  have hn : (UInt8.ofNat n).toNat = n := UInt8.toNat_ofNat_of_lt' h
  simp only [sequenceLength, UInt8.lt_iff_toNat_lt, hn, UInt8.reduceToNat]

/-- The byte inside a character that has the low six bits of a number. -/
def continuation (n : Nat) : UInt8 :=
  UInt8.ofNat (n % 64 + 128)

/-- A continuation holds six bits. -/
theorem toNat_continuation (n : Nat) : (continuation n).toNat = n % 64 + 128 :=
  UInt8.toNat_ofNat_of_lt' (by simp only [UInt8.size]; omega)

/-- A continuation is inside a character. -/
@[simp] theorem isContinuation_continuation (n : Nat) : isContinuation (continuation n) := by
  simp only [isContinuation, UInt8.le_iff_toNat_le, toNat_continuation, UInt8.reduceToNat,
    Bool.and_eq_true, decide_eq_true_eq]
  omega

/-- A continuation may come second unless the first byte narrows the range and leaves it out. -/
theorem isSecond_continuation (hn : n < 256)
    (hrange : (n = 0xE0 → 32 ≤ m % 64) ∧ (n = 0xED → m % 64 < 32) ∧ (n = 0xF0 → 16 ≤ m % 64) ∧
      (n = 0xF4 → m % 64 < 16)) : isSecond (UInt8.ofNat n) (continuation m) := by
  have hlead : (UInt8.ofNat n).toNat = n := UInt8.toNat_ofNat_of_lt' hn
  rw [isSecond, isContinuation_continuation, Bool.true_and]
  simp only [UInt8.le_iff_toNat_le, UInt8.lt_iff_toNat_lt, ← UInt8.toNat_inj, hlead,
    toNat_continuation, UInt8.reduceToNat]
  repeat' split
  all_goals simp only [decide_eq_true_eq]
  all_goals omega

/-! ## Sequences -/

/-- The reader finds the bytes to be those of the character. -/
structure IsSequence (lead : UInt8) (more : List UInt8) (c : Char) : Prop where
  /-- The first byte tells how many there are. -/
  length : sequenceLength lead = more.length + 1
  /-- The others go on with the character, whatever follows. -/
  good : more ≠ [] → ∀ rest, goodContinuations lead (more ++ rest) = more.length
  /-- Their bits are those of the character. -/
  point : codePoint lead more = c.toNat

/-- A sequence is read. -/
theorem IsSequence.decodeUtf8From (h : IsSequence lead more c) :
    decodeUtf8From start read (lead :: (more ++ rest)) =
      decodeUtf8From (start + (more.length + 1)) (c :: read) rest := by
  have hchar : Char.ofNat (codePoint lead more) = c := by rw [h.point, Char.ofNat_toNat]
  rw [Text.decodeUtf8From]
  simp only [h.length]
  cases more with
  | nil => simp [← hchar, codePoint]
  | cons b more =>
    have hgood := h.good (List.cons_ne_nil b more) rest
    simp only [hgood, List.take_left, List.drop_left, hchar]
    rw [if_neg (by omega), if_neg (by simp), if_pos trivial]

/-- A second byte in the range of the first and continuations after it make a sequence. -/
theorem isSequence_of_second {b : UInt8} (hlength : sequenceLength lead = more.length + 2)
    (hsecond : isSecond lead b) (hmore : ∀ x ∈ more, isContinuation x)
    (hpoint : codePoint lead (b :: more) = c.toNat) : IsSequence lead (b :: more) c := by
  refine ⟨hlength, fun _ rest => ?_, hpoint⟩
  have htake : (more ++ rest).take (sequenceLength lead - 2) = more := by
    rw [hlength, Nat.add_sub_cancel, List.take_left]
  rw [List.cons_append, goodContinuations, if_pos hsecond, htake,
    List.takeWhile_eq_self_iff.2 hmore, List.length_cons, Nat.add_comm]

/-- A character below 128 is a sequence of one byte. -/
theorem isSequence_one (h : c.toNat < 0x80) : IsSequence (UInt8.ofNat c.toNat) [] c where
  length := by
    rw [sequenceLength_ofNat (by omega), if_pos h]
    rfl
  good := fun h => absurd rfl h
  point := UInt8.toNat_ofNat_of_lt' (by simp only [UInt8.size]; omega)

/-- A character below 2048 is a sequence of two bytes. -/
theorem isSequence_two (hlow : 0x80 ≤ c.toNat) (hhigh : c.toNat < 0x800) :
    IsSequence (UInt8.ofNat (c.toNat / 64 % 32 + 192)) [continuation c.toNat] c := by
  refine isSequence_of_second ?_ ?_ (List.forall_mem_nil _) ?_
  · rw [sequenceLength_ofNat (by omega), if_neg (by omega), if_neg (by omega), if_pos (by omega)]
    rfl
  · exact isSecond_continuation (by omega) ⟨by omega, by omega, by omega, by omega⟩
  · simp only [codePoint, List.length_singleton, List.foldl_cons, List.foldl_nil,
      toNat_continuation, UInt8.toNat_ofNat']
    omega

/-- A character below 65536 is a sequence of three bytes. -/
theorem isSequence_three (hlow : 0x800 ≤ c.toNat) (hhigh : c.toNat < 0x10000) :
    IsSequence (UInt8.ofNat (c.toNat / 4096 % 16 + 224))
      [continuation (c.toNat / 64), continuation c.toNat] c := by
  have hvalid : c.toNat < 0xD800 ∨ 0xDFFF < c.toNat ∧ c.toNat < 0x110000 := c.valid
  refine isSequence_of_second ?_ ?_ (by simp) ?_
  · rw [sequenceLength_ofNat (by omega), if_neg (by omega), if_neg (by omega), if_neg (by omega),
      if_pos (by omega)]
    rfl
  · exact isSecond_continuation (by omega) ⟨by omega, by omega, by omega, by omega⟩
  · simp only [codePoint, List.length_cons, List.length_nil, List.foldl_cons, List.foldl_nil,
      toNat_continuation, UInt8.toNat_ofNat']
    omega

/-- Any other character is a sequence of four bytes. -/
theorem isSequence_four (hlow : 0x10000 ≤ c.toNat) :
    IsSequence (UInt8.ofNat (c.toNat / 262144 % 8 + 240))
      [continuation (c.toNat / 4096), continuation (c.toNat / 64), continuation c.toNat] c := by
  have hvalid : c.toNat < 0xD800 ∨ 0xDFFF < c.toNat ∧ c.toNat < 0x110000 := c.valid
  refine isSequence_of_second ?_ ?_ (by simp) ?_
  · rw [sequenceLength_ofNat (by omega), if_neg (by omega), if_neg (by omega), if_neg (by omega),
      if_neg (by omega), if_pos (by omega)]
    rfl
  · exact isSecond_continuation (by omega) ⟨by omega, by omega, by omega, by omega⟩
  · simp only [codePoint, List.length_cons, List.length_nil, List.foldl_cons, List.foldl_nil,
      toNat_continuation, UInt8.toNat_ofNat']
    omega

/-- Every character is written as a sequence. -/
theorem exists_isSequence (c : Char) :
    ∃ lead more, String.utf8EncodeChar c = lead :: more ∧ IsSequence lead more c := by
  have htoNat : c.val.toNat = c.toNat := rfl
  rw [String.utf8EncodeChar]
  simp only [htoNat]
  split
  · exact ⟨_, _, rfl, isSequence_one (by omega)⟩
  split
  · exact ⟨_, _, rfl, isSequence_two (by omega) (by omega)⟩
  split
  · exact ⟨_, _, rfl, isSequence_three (by omega) (by omega)⟩
  · exact ⟨_, _, rfl, isSequence_four (by omega)⟩

/-- What is written is read back behind what was read before. -/
theorem decodeUtf8From_utf8Chars (cs : List Char) (start : Nat) (read : List Char) :
    decodeUtf8From start read (utf8Chars cs) = .ok (read.reverse ++ cs) := by
  induction cs generalizing start read with
  | nil => rw [utf8Chars, List.flatMap_nil, decodeUtf8From, List.append_nil]
  | cons c cs ih =>
    obtain ⟨lead, more, hc, hsequence⟩ := exists_isSequence c
    rw [utf8Chars, List.flatMap_cons, hc, List.cons_append, hsequence.decodeUtf8From, ← utf8Chars,
      ih, List.reverse_cons, List.append_assoc, List.singleton_append]

/-- What is written is read back. -/
theorem decodeUtf8_utf8Chars (cs : List Char) : decodeUtf8 (utf8Chars cs) = .ok cs :=
  decodeUtf8From_utf8Chars cs 0 []

-- A character of each length.
example : decodeUtf8 [0x61, 0xC3, 0xA9, 0xE2, 0x82, 0xAC, 0xF0, 0x9F, 0x98, 0x80] =
    .ok ['a', 'é', '€', '😀'] := by decide +kernel

end ByteLayout.Text
