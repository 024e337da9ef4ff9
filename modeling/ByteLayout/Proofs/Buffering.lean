import Mathlib.Data.List.TakeDrop
import ByteLayout.Proofs.Emission

/-!
# Histories of a buffer

A buffer after any number of writes, whether they fitted, were cut or came too late. `afterWrites`
is the buffer that a history leads to. It holds what was there and as much of all the data as there
was room for (`content_afterWrites`), so a full buffer never changes again.

`content_of_history`: what any history makes of a new buffer, and what the next write tells of it.
-/

namespace ByteLayout.OutputBuffer

variable {b : OutputBuffer} {data : List UInt8}

/-- The buffer after some writes. -/
def afterWrites (b : OutputBuffer) (history : List (List UInt8)) : OutputBuffer :=
  history.foldl (fun b data => (b.write data).1) b

theorem afterWrites_cons (b : OutputBuffer) (data : List UInt8) (history : List (List UInt8)) :
    b.afterWrites (data :: history) = (b.append data).afterWrites history := rfl

/-! ## What a history leaves -/

/-- No write changes the capacity. -/
theorem capacity_afterWrites (b : OutputBuffer) (history : List (List UInt8)) :
    (b.afterWrites history).capacity = b.capacity := by
  induction history generalizing b with
  | nil => rfl
  | cons data history ih =>
    rw [afterWrites_cons, ih]
    rfl

/-- The data of a history is cut once, where the room ends. -/
theorem content_afterWrites (b : OutputBuffer) (history : List (List UInt8)) :
    (b.afterWrites history).content = b.content ++ history.flatten.take b.room := by
  induction history generalizing b with
  | nil => simp [afterWrites]
  | cons data history ih =>
    rw [afterWrites_cons, ih, content_append, room_append, List.flatten_cons, List.take_append,
      List.append_assoc]

/-- Writes take the room of all their bytes, as far as there is any. -/
theorem room_afterWrites (b : OutputBuffer) (history : List (List UInt8)) :
    (b.afterWrites history).room = b.room - history.flatten.length := by
  induction history generalizing b with
  | nil => rfl
  | cons data history ih =>
    rw [afterWrites_cons, ih, room_append, List.flatten_cons, List.length_append]
    omega

/-! ## Full buffers -/

/-- A buffer is full if it is as long as its capacity. -/
theorem isFull_iff_length : b.isFull ↔ b.length = b.capacity := by
  have hroom := b.length_add_room
  rw [isFull_iff]
  omega

/-- No history changes a full buffer. -/
theorem content_afterWrites_of_isFull (h : b.isFull) (history : List (List UInt8)) :
    (b.afterWrites history).content = b.content := by
  rw [content_afterWrites, isFull_iff.1 h, List.take_zero, List.append_nil]

/-- A full buffer stays full. -/
theorem isFull_afterWrites (h : b.isFull) (history : List (List UInt8)) :
    (b.afterWrites history).isFull := by
  rw [isFull_iff, room_afterWrites, isFull_iff.1 h, Nat.zero_sub]

/-- A full buffer takes nothing but an empty write. -/
theorem fits_iff_of_isFull (h : b.isFull) : b.fits data ↔ data = [] := by
  rw [fits, isFull_iff.1 h, decide_eq_true_eq, Nat.le_zero, List.length_eq_zero_iff]

/-! ## Single writes -/

/-- A write tells whether its data was added whole. -/
theorem fits_iff : b.fits data ↔ (b.append data).content = b.content ++ data := by
  rw [content_append, List.append_cancel_left_eq, List.take_eq_self_iff, fits, decide_eq_true_eq]

/-- A write that was cut fills the buffer. -/
theorem isFull_append_of_not_fits (h : b.fits data = false) : (b.append data).isFull := by
  rw [fits, decide_eq_false_iff_not] at h
  rw [isFull_iff, room_append]
  omega

/-- After any history a new buffer holds the first bytes of all the data, as many as its capacity
allows; its bytes and its room make up the capacity, and it is full exactly if its bytes do. The
next write tells whether its data was added whole. If it was not, the buffer is full; no history
changes its content any more, and of the writes that follow exactly the empty ones are told to be
whole. -/
theorem content_of_history (capacity : Nat) : ∃ start, ofCapacity capacity = .ok start ∧
    ∀ history, ∃ b, start.afterWrites history = b ∧
      b.content = history.flatten.take capacity ∧ b.length + b.room = capacity ∧
      (b.isFull ↔ b.length = capacity) ∧
      ∀ data after told, b.write data = (after, told) →
        (told ↔ after.content = b.content ++ data) ∧
        (told = false → after.isFull ∧ ∀ later, (after.afterWrites later).content = after.content ∧
          ∀ next, ((after.afterWrites later).write next).2 ↔ next = []) := by
  refine ⟨{ capacity }, ?_, fun history => ⟨_, rfl, ?_, ?_, ?_, ?_⟩⟩
  · rw [ofCapacity, if_neg (by omega)]
    rfl
  · rw [content_afterWrites]
    rfl
  · rw [length_add_room, capacity_afterWrites]
  · rw [isFull_iff_length, capacity_afterWrites]
  · rintro data after told hwrite
    obtain ⟨rfl, rfl⟩ := Prod.mk.inj hwrite
    refine ⟨fits_iff, fun hcut => ?_⟩
    have hfull := isFull_append_of_not_fits hcut
    exact ⟨hfull, fun later => ⟨content_afterWrites_of_isFull hfull later,
      fun next => fits_iff_of_isFull (isFull_afterWrites hfull later)⟩⟩

end ByteLayout.OutputBuffer
