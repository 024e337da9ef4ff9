import ByteLayout.Text.Numeral
import Mathlib.Data.List.Basic
import Mathlib.Data.List.Induction

/-!
# Numerals are read back

`ofDigits_naturalDigits`: the digits of a natural number denote it, in every base from 2 to 16.
`isDecimalDigit_naturalDigits` and `isHexDigit_hexOfWidth` say what the digits are, and
`ofDigits_hexOfWidth` what is left of a number that does not fit its digits.

`CanonicalDigits` and `Canonical` say what the numeral of a number is without a way to compute it;
`canonical_iff` is that `numeralDigits` computes it. Between two bounds the longest numeral is that
of one of the bounds (`length_numeralDigits_le`), and the shortest is that of the number next to
zero (`length_numeralDigits_ge`).
-/

namespace ByteLayout.Text

variable {base n : Nat}

/-! ## Digits -/

/-- A digit stands for its number. -/
theorem digitValue_digitChar (h : n < 16) : digitValue (Nat.digitChar n) = n := by
  have hall : ∀ m < 16, digitValue (Nat.digitChar m) = m := by decide
  exact hall n h

/-- The digits of bases up to sixteen are hexadecimal ones. -/
theorem isHexDigit_digitChar (h : n < 16) : isHexDigit (Nat.digitChar n) := by
  have hall : ∀ m < 16, isHexDigit (Nat.digitChar m) := by decide
  exact hall n h

/-- The digits of bases up to ten are decimal ones. -/
theorem isDecimalDigit_digitChar (h : n < 10) : isDecimalDigit (Nat.digitChar n) := by
  have hall : ∀ m < 10, isDecimalDigit (Nat.digitChar m) := by decide
  exact hall n h

/-- A digit at the end multiplies what stands before it by the base. -/
theorem ofDigits_concat (base : Nat) (digits : List CodePoint) (c : CodePoint) :
    ofDigits base (digits ++ [c]) = base * ofDigits base digits + digitValue c := by
  rw [ofDigits, List.foldl_append]
  rfl

/-! ## Natural numbers -/

/-- A number of one digit is that digit, and another has its last digit behind the digits of the
rest. -/
theorem naturalDigits_eq (hbase : 1 < base) (n : Nat) : naturalDigits base n =
    if n < base then [scalar (Nat.digitChar n)]
    else naturalDigits base (n / base) ++ [scalar (Nat.digitChar (n % base))] := by
  rw [naturalDigits, Nat.toDigits_eq_if hbase]
  split
  · rfl
  · exact List.map_append

/-- Every number has a digit. -/
theorem naturalDigits_ne_nil (base n : Nat) : naturalDigits base n ≠ [] :=
  mt List.map_eq_nil_iff.1 Nat.toDigits_ne_nil

theorem length_naturalDigits (base n : Nat) :
    (naturalDigits base n).length = (Nat.toDigits base n).length :=
  List.length_map _

/-- The digits of a number denote it. -/
theorem ofDigits_naturalDigits (hbase : 1 < base) (hsmall : base ≤ 16) (n : Nat) :
    ofDigits base (naturalDigits base n) = n := by
  induction n using Nat.strongRecOn with
  | ind n ih =>
    rw [naturalDigits_eq hbase]
    split
    · next hn =>
      show base * 0 + digitValue (Nat.digitChar n) = n
      rw [digitValue_digitChar (by omega)]
      omega
    · next hn =>
      have hless : n / base < n := Nat.div_lt_self (by omega) hbase
      have hdigit : n % base < base := Nat.mod_lt _ (by omega)
      rw [ofDigits_concat, ih _ hless, digitValue_digitChar (by omega)]
      exact Nat.div_add_mod n base

/-- What holds of every digit below the base holds of the digits of a number. -/
theorem forall_naturalDigits {p : CodePoint → Prop} (hbase : 1 < base)
    (h : ∀ d < base, p (Nat.digitChar d)) (n : Nat) : ∀ c ∈ naturalDigits base n, p c := by
  induction n using Nat.strongRecOn with
  | ind n ih =>
    rw [naturalDigits_eq hbase]
    split
    · next hn =>
      intro c hc
      obtain rfl := List.mem_singleton.1 hc
      exact h n hn
    · next hn =>
      have hless : n / base < n := Nat.div_lt_self (by omega) hbase
      intro c hc
      rcases List.mem_append.1 hc with hc | hc
      · exact ih _ hless c hc
      · obtain rfl := List.mem_singleton.1 hc
        exact h _ (Nat.mod_lt _ (by omega))

/-- A number in decimal has decimal digits. -/
theorem isDecimalDigit_naturalDigits (n : Nat) : ∀ c ∈ naturalDigits 10 n, isDecimalDigit c :=
  forall_naturalDigits (by decide) (fun _ => isDecimalDigit_digitChar) n

/-- A greater number has as many digits or more. -/
theorem length_naturalDigits_mono {m : Nat} (hbase : 1 < base) (h : m ≤ n) :
    (naturalDigits base m).length ≤ (naturalDigits base n).length := by
  rw [length_naturalDigits, length_naturalDigits]
  have hpos : 0 < (Nat.toDigits base n).length := Nat.length_toDigits_pos
  have hn : n < base ^ (Nat.toDigits base n).length :=
    (Nat.length_toDigits_le_iff hbase hpos).1 (Nat.le_refl _)
  exact (Nat.length_toDigits_le_iff hbase hpos).2 (Nat.lt_of_le_of_lt h hn)

/-! ## Canonical numerals -/

/-- The canonical digits of a natural number: they denote it, and they begin with a zero only if
there is no other. -/
structure CanonicalDigits (base n : Nat) (digits : List CodePoint) : Prop where
  /-- There is a digit. -/
  ne_nil : digits ≠ []
  /-- All characters are digits of the base. -/
  mem : ∀ c ∈ digits, ∃ d < base, c = Nat.digitChar d
  /-- There is no leading zero. -/
  leading : digits.head? = some (scalar '0') → digits = [scalar '0']
  /-- The digits denote the number. -/
  value : ofDigits base digits = n

/-- The canonical numeral of an integer: its canonical digits, behind a `-` if it is negative. -/
inductive Canonical (base : Nat) : Int → List CodePoint → Prop
  /-- A number that is not negative. -/
  | natural {n : Nat} {digits : List CodePoint} (h : CanonicalDigits base n digits) :
    Canonical base n digits
  /-- A negative number. -/
  | negative {n : Nat} {digits : List CodePoint} (hn : 0 < n) (h : CanonicalDigits base n digits) :
    Canonical base (-n) (scalar '-' :: digits)

/-- Only zero has the digit `0`. -/
theorem digitChar_eq_zero {d : Nat} (h : d < 16) (heq : Nat.digitChar d = '0') : d = 0 := by
  have hall : ∀ d < 16, Nat.digitChar d = '0' → d = 0 := by decide
  exact hall d h heq

/-- Only the digits of zero begin with a zero. -/
theorem eq_zero_of_head? (hbase : 1 < base) (hsmall : base ≤ 16)
    (h : (naturalDigits base n).head? = some (scalar '0')) : n = 0 := by
  induction n using Nat.strongRecOn with
  | ind n ih =>
    rw [naturalDigits_eq hbase] at h
    split at h
    · next hn => exact digitChar_eq_zero (by omega) (CodePoint.scalar.inj (Option.some.inj h))
    · next hn =>
      have hless : n / base < n := Nat.div_lt_self (by omega) hbase
      rw [List.head?_append_of_ne_nil _ (naturalDigits_ne_nil base _)] at h
      have hdiv : n / base = 0 := ih _ hless h
      have hpos : 0 < n / base := Nat.div_pos (by omega) (by omega)
      omega

/-- A number is written without a zero in front. -/
theorem canonicalDigits_naturalDigits (hbase : 1 < base) (hsmall : base ≤ 16) (n : Nat) :
    CanonicalDigits base n (naturalDigits base n) where
  ne_nil := naturalDigits_ne_nil base n
  mem := forall_naturalDigits hbase (fun d hd => ⟨d, hd, rfl⟩) n
  leading h := by
    obtain rfl := eq_zero_of_head? hbase hsmall h
    rw [naturalDigits_eq hbase, if_pos (by omega)]
    rfl
  value := ofDigits_naturalDigits hbase hsmall n

/-- A number has no other canonical digits than those that are computed. -/
theorem CanonicalDigits.eq {digits : List CodePoint} (hbase : 1 < base) (hsmall : base ≤ 16)
    (h : CanonicalDigits base n digits) : digits = naturalDigits base n := by
  -- The last digit is the remainder, so the induction is from the right.
  induction digits using List.reverseRecOn generalizing n with
  | nil => exact absurd rfl h.ne_nil
  | append_singleton rest c ih =>
    obtain ⟨d, hd, rfl⟩ := h.mem c (List.mem_append_right _ (List.mem_singleton.2 rfl))
    have hvalue := h.value
    rw [ofDigits_concat, digitValue_digitChar (by omega)] at hvalue
    by_cases hrest : rest = []
    · subst hrest
      have hn : d = n := by simpa [ofDigits] using hvalue
      rw [naturalDigits_eq hbase, if_pos (by omega), hn]
      rfl
    · have hhead : rest.head? ≠ some (scalar '0') := by
        intro hzero
        have hall := h.leading (by rw [List.head?_append_of_ne_nil _ hrest]; exact hzero)
        have hlength := congrArg List.length hall
        have hpos := List.length_pos_iff.2 hrest
        simp only [List.length_append, List.length_singleton] at hlength
        omega
      have hcanonical : CanonicalDigits base (ofDigits base rest) rest :=
        ⟨hrest, fun c hc => h.mem c (List.mem_append_left _ hc), fun hz => absurd hz hhead, rfl⟩
      have hdigits := ih hcanonical
      have hpos : 0 < ofDigits base rest := by
        refine Nat.pos_of_ne_zero fun hzero => hhead ?_
        rw [hdigits, hzero, naturalDigits_eq hbase, if_pos (by omega)]
        rfl
      have hle : base ≤ base * ofDigits base rest := Nat.le_mul_of_pos_right base hpos
      have hdiv : n / base = ofDigits base rest := by
        rw [← hvalue, Nat.mul_add_div (by omega), Nat.div_eq_of_lt hd, Nat.add_zero]
      have hmod : n % base = d := by
        rw [← hvalue, Nat.mul_add_mod, Nat.mod_eq_of_lt hd]
      rw [naturalDigits_eq hbase, if_neg (by omega), hdiv, hmod, ← hdigits]

/-- The numeral of an integer is its only canonical one. -/
theorem canonical_iff (hbase : 1 < base) (hsmall : base ≤ 16) {n : Int} {cs : List CodePoint} :
    Canonical base n cs ↔ cs = numeralDigits base n := by
  constructor
  · intro h
    cases h with
    | @natural n digits h =>
      rw [numeralDigits, if_neg (by omega), Int.natAbs_natCast]
      exact h.eq hbase hsmall
    | @negative n digits hn h =>
      rw [numeralDigits, if_pos (by omega), Int.natAbs_neg, Int.natAbs_natCast]
      exact congrArg _ (h.eq hbase hsmall)
  · rintro rfl
    unfold numeralDigits
    have hdigits := canonicalDigits_naturalDigits hbase hsmall n.natAbs
    split
    · next hn =>
      have hnegative := Canonical.negative (by omega : 0 < n.natAbs) hdigits
      rwa [(by omega : -(n.natAbs : Int) = n)] at hnegative
    · next hn =>
      have hnatural := Canonical.natural hdigits
      rwa [(by omega : (n.natAbs : Int) = n)] at hnatural

/-- The numeral of a number between two bounds is not longer than both of theirs. -/
theorem length_numeralDigits_le (hbase : 1 < base) {a b n : Int} (ha : a ≤ n) (hb : n ≤ b) :
    (numeralDigits base n).length ≤
      max (numeralDigits base a).length (numeralDigits base b).length := by
  by_cases hn : n < 0
  · have hle := length_naturalDigits_mono (n := a.natAbs) (m := n.natAbs) hbase (by omega)
    rw [numeralDigits, if_pos hn, numeralDigits, if_pos (by omega : a < 0), List.length_cons,
      List.length_cons]
    omega
  · have hle := length_naturalDigits_mono (n := b.natAbs) (m := n.natAbs) hbase (by omega)
    rw [numeralDigits, if_neg hn, numeralDigits.eq_def base b, if_neg (by omega : ¬ b < 0)]
    omega

/-- The number next to zero between two bounds. -/
def nextToZero (a b : Int) : Int :=
  max a (min 0 b)

/-- The numeral of a number between two bounds is not shorter than that of the one next to zero. -/
theorem length_numeralDigits_ge (hbase : 1 < base) {a b n : Int} (ha : a ≤ n) (hb : n ≤ b) :
    (numeralDigits base (nextToZero a b)).length ≤ (numeralDigits base n).length := by
  have hle : (naturalDigits base (nextToZero a b).natAbs).length ≤
      (naturalDigits base n.natAbs).length :=
    length_naturalDigits_mono hbase (by unfold nextToZero; omega)
  unfold numeralDigits
  by_cases hn : n < 0
  · rw [if_pos hn, List.length_cons]
    split
    · rw [List.length_cons]
      omega
    · omega
  · have hnext : ¬ nextToZero a b < 0 := by
      unfold nextToZero
      omega
    rw [if_neg hn, if_neg hnext]
    exact hle

/-! ## Digits of a width -/

/-- A code is written with hexadecimal digits. -/
theorem isHexDigit_hexOfWidth (width n : Nat) : ∀ c ∈ hexOfWidth width n, isHexDigit c := by
  induction width generalizing n with
  | zero => simp [hexOfWidth]
  | succ width ih =>
    intro c hc
    rcases List.mem_append.1 hc with hc | hc
    · exact ih _ c hc
    · obtain rfl := List.mem_singleton.1 hc
      exact isHexDigit_digitChar (Nat.mod_lt _ (by decide))

/-- A number written with too few digits loses its high ones. -/
theorem ofDigits_hexOfWidth (width n : Nat) :
    ofDigits 16 (hexOfWidth width n) = n % Nat.pow 16 width := by
  induction width generalizing n with
  | zero => simp [hexOfWidth, ofDigits, Nat.mod_one]
  | succ width ih =>
    have hdigit : n % 16 < 16 := Nat.mod_lt _ (by decide)
    have hpow : Nat.pow 16 (width + 1) = 16 * Nat.pow 16 width := Nat.mul_comm _ _
    rw [hexOfWidth, ofDigits_concat, ih, digitValue_digitChar hdigit, hpow, Nat.mod_mul]
    omega

/-- A byte is read back from its two digits. -/
theorem ofDigits_hexByte (b : UInt8) : ofDigits 16 (hexByte b) = b.toNat := by
  rw [hexByte, ofDigits_hexOfWidth]
  exact Nat.mod_eq_of_lt b.toNat_lt

end ByteLayout.Text
