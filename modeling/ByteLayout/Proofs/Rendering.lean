import ByteLayout.Field.Number
import ByteLayout.Proofs.Encoding
import ByteLayout.Proofs.Results

/-!
# Rendered numbers

A number is rendered as its numeral, unless it is to be shown in base ten and is too long
(`renderNumber_eq_ok_iff`). The characters of a numeral are ASCII, so that every one of them is a
byte (`numeralBytes_eq_ok_iff`).
-/

namespace ByteLayout

open Text

variable {base : Nat} {n : Int} {display : Option DisplayBase} {data : List UInt8}

/-- Bases lie between two and sixteen. -/
theorem DisplayBase.radix_bounds (b : DisplayBase) : 1 < b.radix ∧ b.radix ≤ 16 := by
  cases b <;> decide

/-- The base of a number that may be shown in a base. -/
abbrev shownRadix (display : Option DisplayBase) : Nat :=
  (display.getD .decimal).radix

/-- The number is to be shown in base ten, and has too many digits for it. -/
def Unrendered (n : Int) (display : Option DisplayBase) : Prop :=
  display.getD .decimal = .decimal ∧ TooLong n

/-- A number is rendered as its numeral, or it has too many digits. -/
theorem renderNumber_cases (n : Int) (display : Option DisplayBase) :
    Unrendered n display ∧ renderNumber n display = .error .tooManyDigits ∨
      ¬ Unrendered n display ∧ renderNumber n display = .ok (numeral (shownRadix display) n) := by
  unfold renderNumber Unrendered shownRadix
  cases display.getD .decimal with
  | decimal =>
    by_cases h : TooLong n
    · exact .inl ⟨⟨rfl, h⟩, writeDecimal_of_tooLong h⟩
    · exact .inr ⟨fun hboth => h hboth.2, writeDecimal_of_not_tooLong h⟩
  | binary | octal | hexadecimal => exact .inr ⟨fun h => (nomatch h.1), rfl⟩

/-- What is rendered is the numeral of a number that has one. -/
theorem renderNumber_eq_ok_iff {text : Text} : renderNumber n display = .ok text ↔
    ¬ Unrendered n display ∧ text = numeral (shownRadix display) n := by
  obtain ⟨h, heq⟩ | ⟨h, heq⟩ := renderNumber_cases n display
  · simp [heq, h]
  · simp [heq, h, eq_comm]

/-- The characters of a numeral are ASCII. -/
theorem toNat_lt_of_mem_numeralDigits (hbase : 1 < base) (hsmall : base ≤ 16) (n : Int) :
    ∀ c ∈ numeralDigits base n, c.toNat < 0x80 := by
  have hdigit : ∀ d < 16, (Nat.digitChar d).toNat < 0x80 := by decide
  have hdigits : ∀ c ∈ naturalDigits base n.natAbs, c.toNat < 0x80 :=
    forall_naturalDigits hbase (fun d hd => hdigit d (by omega)) _
  unfold numeralDigits
  split
  · exact List.forall_mem_cons.2 ⟨by decide, hdigits⟩
  · exact hdigits

/-- A numeral is encoded as the codes of its characters. -/
theorem encode_numeralDigits (n : Int) (display : Option DisplayBase) :
    encode .ascii (numeralDigits (shownRadix display) n) =
      .ok (codes (numeralDigits (shownRadix display) n)) := by
  obtain ⟨hbase, hsmall⟩ := (display.getD .decimal).radix_bounds
  exact encode_ascii (toNat_lt_of_mem_numeralDigits hbase hsmall n)

/-- A number has the bytes of its numeral, or it has too many digits. -/
theorem numeralBytes_cases (n : Int) (display : Option DisplayBase) :
    Unrendered n display ∧ numeralBytes n display = .error .tooManyDigits ∨
      ¬ Unrendered n display ∧
        numeralBytes n display = .ok (codes (numeralDigits (shownRadix display) n)) := by
  unfold numeralBytes
  obtain ⟨h, heq⟩ | ⟨h, heq⟩ := renderNumber_cases n display
  · exact .inl ⟨h, by rw [heq]; rfl⟩
  · exact .inr ⟨h, by rw [heq]; exact encode_numeralDigits n display⟩

/-- A number that has bytes has those of its numeral. -/
theorem numeralBytes_eq_ok_iff : numeralBytes n display = .ok data ↔
    ¬ Unrendered n display ∧ data = codes (numeralDigits (shownRadix display) n) := by
  obtain ⟨h, heq⟩ | ⟨h, heq⟩ := numeralBytes_cases n display
  · simp [heq, h]
  · simp [heq, h, eq_comm]

/-! ## Formats -/

/-- Every number of a format has at most 64 bits. -/
theorem NumberFormat.natAbs_bounds_le (f : NumberFormat) :
    f.minimum.natAbs ≤ 2 ^ 64 ∧ f.maximum.natAbs ≤ 2 ^ 64 := by
  obtain ⟨signed, width⟩ := f
  cases signed <;> cases width <;> decide

/-- A number of a format is not too long. -/
theorem NumberFormat.not_tooLong (f : NumberFormat) (hmin : f.minimum ≤ n)
    (hmax : n ≤ f.maximum) : ¬ TooLong n := by
  obtain ⟨hlower, hupper⟩ := f.natAbs_bounds_le
  exact not_tooLong_of_natAbs_le (by omega)

/-- A number of a format is rendered in every base. -/
theorem NumberFormat.not_unrendered (f : NumberFormat) (hmin : f.minimum ≤ n)
    (hmax : n ≤ f.maximum) : ¬ Unrendered n display :=
  fun h => f.not_tooLong hmin hmax h.2

end ByteLayout
