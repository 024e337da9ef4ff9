/-!
# Signed positions and slices

Members of a list by signed position. A position below zero counts from the end: `-1` is the last
member. A slice takes every `step`-th member from `start` up to, and without, `stop`; a bound that
is left out stands for the end of the list that the direction of the step begins or ends at, and a
bound beyond the list for the end it lies beyond.
-/

namespace ByteLayout.Sequence

variable {α : Type}

/-- A signed position as an offset that is still to be checked against the length. -/
def resolve (length : Nat) (position : Int) : Int :=
  if position < 0 then position + length else position

/-- The member at a signed position. -/
def at? (xs : List α) (position : Int) : Option α :=
  match resolve xs.length position with
  | .ofNat i => xs[i]?
  | .negSucc _ => none

/-- The members before a signed position. -/
def before (xs : List α) (stop : Int) : List α :=
  xs.take (resolve xs.length stop).toNat

/-- The members from a natural position to a signed one. -/
def between (xs : List α) (start : Nat) (stop : Int) : List α :=
  (before xs stop).drop start

/-- A slice: its bounds, each of which may be left out, and its step, `1` if it is left out. -/
structure Slice where
  /-- The position of the first member. -/
  start : Option Int := none
  /-- The position that the slice ends before. -/
  stop : Option Int := none
  /-- The distance between two members. -/
  step : Option Int := none
  deriving DecidableEq, Repr

/-- A signed position moved into the range from `low` to `high`. -/
def clamp (length : Nat) (low high position : Int) : Int :=
  max low (min high (resolve length position))

/-- How many members lie a stride apart within a distance. -/
def countWithin (distance stride : Int) : Nat :=
  ((distance + stride - 1) / stride).toNat

/-- The offsets that a slice takes from a list of this length; meant for a step that is not zero. -/
def Slice.offsets (s : Slice) (length : Nat) : List Int :=
  let step := s.step.getD 1
  if 0 < step then
    let first := (s.start.map (clamp length 0 length)).getD 0
    let last := (s.stop.map (clamp length 0 length)).getD length
    (List.range (countWithin (last - first) step)).map fun i : Nat => first + i * step
  else
    let first := (s.start.map (clamp length (-1) (length - 1))).getD (length - 1)
    let last := (s.stop.map (clamp length (-1) (length - 1))).getD (-1)
    (List.range (countWithin (first - last) (-step))).map fun i : Nat => first + i * step

/-- The members that a slice takes, or `none` when its step is zero. -/
def slice? (xs : List α) (s : Slice) : Option (List α) :=
  if s.step = some 0 then none else some ((s.offsets xs.length).filterMap (at? xs))

end ByteLayout.Sequence
