import ByteLayout.Text.Numeral

/-!
# Output buffers

Bytes that never grow past a capacity. A write adds as much of its data as there is room for and
tells whether that was all of it.
-/

namespace ByteLayout

/-- Bytes that never grow past a capacity. -/
structure OutputBuffer where
  /-- The greatest number of bytes. -/
  capacity : Nat
  /-- The bytes. -/
  content : List UInt8 := []
  /-- The bytes keep to the capacity. -/
  length_le : content.length ≤ capacity := by simp
  deriving DecidableEq, Repr

/-- A capacity below zero. -/
structure CapacityError where
  /-- The capacity. -/
  capacity : Int
  deriving DecidableEq, Repr

/-- The text of the error. -/
def CapacityError.message (e : CapacityError) : Text :=
  "capacity must be >= 0, got " ++ Text.decimal e.capacity

namespace OutputBuffer

/-- An empty buffer of a capacity. -/
def ofCapacity (capacity : Int) : Except CapacityError OutputBuffer :=
  if capacity < 0 then .error ⟨capacity⟩ else .ok { capacity := capacity.toNat }

/-- The number of bytes. -/
def length (b : OutputBuffer) : Nat :=
  b.content.length

/-- The number of bytes that can still be written. -/
def room (b : OutputBuffer) : Nat :=
  b.capacity - b.length

/-- Whether no byte can be written any more. -/
def isFull (b : OutputBuffer) : Bool :=
  b.room = 0

/-- The buffer after a write. -/
def append (b : OutputBuffer) (data : List UInt8) : OutputBuffer where
  capacity := b.capacity
  content := b.content ++ data.take b.room
  length_le := by
    have := b.length_le
    simp only [room, length, List.length_append, List.length_take]
    omega

/-- Whether a write adds all of its data. -/
def fits (b : OutputBuffer) (data : List UInt8) : Bool :=
  data.length ≤ b.room

/-- Writes data: the buffer after it, and whether all of it was added. -/
def write (b : OutputBuffer) (data : List UInt8) : OutputBuffer × Bool :=
  (b.append data, b.fits data)

/-- What is written and what is free make up the capacity. -/
theorem length_add_room (b : OutputBuffer) : b.length + b.room = b.capacity := by
  have := b.length_le
  simp only [room, length]
  omega

end OutputBuffer

end ByteLayout
