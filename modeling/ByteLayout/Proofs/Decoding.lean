import ByteLayout.Field.Number

/-!
# Numbers are read back from their bytes

`NumberFormat.decode` reads the bytes of a number in an order, in two's complement for a format with
a sign. `NumberFormat.decode_of_encode`: a number that is encoded takes as many bytes as its format
has and is read back from them.
-/

namespace ByteLayout

/-- The natural number of some bytes, the least significant one first. -/
def ofLittleEndian : List UInt8 → Nat
  | [] => 0
  | b :: bs => b.toNat + 256 * ofLittleEndian bs

/-- Bytes in an order, with the least significant one first. -/
def ByteOrder.leastFirst (order : ByteOrder) (data : List UInt8) : List UInt8 :=
  match order with
  | little => data
  | big => data.reverse

/-- The number of some bytes. If the format has a sign, the upper half of the natural numbers stands
for the negative ones. -/
def NumberFormat.decode (f : NumberFormat) (order : ByteOrder) (data : List UInt8) : Int :=
  let n := ofLittleEndian (order.leastFirst data)
  if f.signed ∧ f.count ≤ 2 * n then n - f.count else n

/-- The bytes of a width hold a number up to the multiples of what they can tell apart. -/
theorem ofLittleEndian_littleEndian (width n : Nat) :
    ofLittleEndian (littleEndian width n) = n % Nat.pow 256 width := by
  induction width generalizing n with
  | zero => simp [littleEndian, ofLittleEndian, Nat.mod_one]
  | succ width ih =>
    have hbyte : (UInt8.ofNat (n % 256)).toNat = n % 256 := by simp
    have hpow : Nat.pow 256 (width + 1) = 256 * Nat.pow 256 width := Nat.mul_comm _ _
    rw [littleEndian, ofLittleEndian, ih, hbyte, hpow, Nat.mod_mul]

namespace NumberFormat

variable {f : NumberFormat} {order : ByteOrder} {n : Int} {data : List UInt8}

/-- A format has as many numbers as its bytes have patterns. -/
theorem count_eq (f : NumberFormat) : f.count = Nat.pow 256 f.bytes := by
  unfold count bits
  exact Nat.pow_mul 2 8 f.bytes

/-- The numbers of a format come in halves. -/
theorem two_mul_half_count (f : NumberFormat) : 2 * (f.count / 2) = f.count := by
  obtain ⟨signed, width⟩ := f
  cases signed <;> cases width <;> decide

/-- What is encoded lies in the range of the format, and its bytes are those of its remainder. -/
theorem encode_eq_ok (h : f.encode order n = .ok data) :
    (f.minimum ≤ n ∧ n ≤ f.maximum) ∧
      order.leastFirst data = littleEndian f.bytes (n % f.count).toNat := by
  unfold encode at h
  split at h
  · cases h
  · split at h
    · cases h
    · next hrange =>
      cases h
      refine ⟨by omega, ?_⟩
      cases order with
      | little => rfl
      | big => exact List.reverse_reverse _

/-- The bytes of a number are as many as its format has. -/
theorem length_of_encode (h : f.encode order n = .ok data) : data.length = f.bytes := by
  have hbytes := congrArg List.length (encode_eq_ok h).2
  rw [length_littleEndian] at hbytes
  cases order with
  | little => exact hbytes
  | big => simpa [ByteOrder.leastFirst] using hbytes

/-- An encoded number is read back. -/
theorem decode_of_encode (h : f.encode order n = .ok data) : f.decode order data = n := by
  obtain ⟨⟨hmin, hmax⟩, hbytes⟩ := encode_eq_ok h
  have hpos : 0 < f.count := by
    rw [count_eq]
    exact Nat.pow_pos (by decide)
  have hnonneg : 0 ≤ n % f.count := Int.emod_nonneg _ (by omega)
  have hlt : n % f.count < f.count := Int.emod_lt_of_pos _ (by omega)
  have hvalue : ofLittleEndian (order.leastFirst data) = (n % f.count).toNat := by
    rw [hbytes, ofLittleEndian_littleEndian, ← count_eq]
    exact Nat.mod_eq_of_lt (by omega)
  have heven := f.two_mul_half_count
  have hmaximum : f.maximum = f.minimum + f.count - 1 := rfl
  unfold decode
  rw [hvalue]
  dsimp only
  cases hsigned : f.signed with
  | false =>
    have hminimum : f.minimum = 0 := by simp [minimum, hsigned]
    have hmod : n % f.count = n := Int.emod_eq_of_lt (by omega) (by omega)
    rw [if_neg (by simp), hmod]
    omega
  | true =>
    have hminimum : f.minimum = -(f.count / 2 : Nat) := by simp [minimum, hsigned]
    by_cases hn : 0 ≤ n
    · have hmod : n % f.count = n := Int.emod_eq_of_lt hn (by omega)
      rw [hmod, if_neg (by omega)]
      omega
    · -- A negative number is represented by what it lacks to the count.
      have hmod : n % f.count = n + f.count := by
        rw [← Int.add_emod_right]
        exact Int.emod_eq_of_lt (by omega) (by omega)
      rw [hmod, if_pos ⟨rfl, by omega⟩]
      omega

end NumberFormat

end ByteLayout
