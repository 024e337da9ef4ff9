/-!
# Random sources

Where the random content of a message comes from. A source is a state with three ways to draw: a
number between two bounds, members of a population, and bytes. `RandomSource.Lawful` says what a
caller may rely on, and `Draw` records what was asked for.

A `Script` is a source that draws everything by numbers below a bound: always the least, always the
greatest, a fixed sequence over and over, or a linear congruential sequence.
-/

namespace ByteLayout

/-- Three ways to draw from a state. -/
structure RandomSource (σ : Type) where
  /-- A number between two bounds, both of which may be drawn. -/
  between : Int → Int → σ → Int × σ
  /-- As many members of a population as a number says, none for a negative number. -/
  picks : List Char → Int → σ → List Char × σ
  /-- As many bytes as a number says, none for a negative number. -/
  bytes : Int → σ → List UInt8 × σ

/-- What a caller of a source may rely on, whatever its state. -/
structure RandomSource.Lawful {σ : Type} (source : RandomSource σ) : Prop where
  /-- A number lies between its bounds if they are in order. -/
  between_mem : ∀ a b s, a ≤ b → a ≤ (source.between a b s).1 ∧ (source.between a b s).1 ≤ b
  /-- There are as many picks as asked for. -/
  length_picks : ∀ population n s, population ≠ [] →
    ((source.picks population n s).1).length = n.toNat
  /-- Every pick is a member of the population. -/
  mem_picks : ∀ population n s, ∀ c ∈ (source.picks population n s).1, c ∈ population
  /-- There are as many bytes as asked for. -/
  length_bytes : ∀ n s, ((source.bytes n s).1).length = n.toNat

/-- What was asked of a source. -/
inductive Draw where
  /-- A number between two bounds. -/
  | between (a b : Int)
  /-- Members of a population of a size. -/
  | picks (population : Nat) (count : Int)
  /-- Bytes. -/
  | bytes (count : Int)
  deriving DecidableEq, Repr

/-! ## Scripted sources -/

/-- A rule for the next number below a bound. -/
inductive Script where
  /-- Always the least number. -/
  | least
  /-- Always the greatest number. -/
  | greatest
  /-- The numbers of a list, over and over; `left` are those still to come in this round. -/
  | cycle (all left : List Int)
  /-- A linear congruential sequence, by its last member. -/
  | congruential (last : Nat)
  deriving DecidableEq, Repr

namespace Script

/-- The member after `last` of the linear congruential sequence. -/
def nextCongruential (last : Nat) : Nat :=
  (last * 6364136223846793005 + 1442695040888963407) % UInt64.size

/-- The next number below a bound. -/
def below (n : Int) : Script → Int × Script
  | least => (0, least)
  | greatest => (n - 1, greatest)
  | cycle all (x :: left) => (x.fmod n, cycle all left)
  | cycle (x :: all) [] => (x.fmod n, cycle (x :: all) all)
  | cycle [] [] => (0, cycle [] [])
  | congruential last =>
    let next := nextCongruential last
    (((next ^^^ (next >>> 32) : Nat) : Int).fmod n, congruential next)

/-- The next `count` numbers below a bound, behind those in `drawn`, which are in reverse order. -/
def manyBelow (n : Int) (drawn : List Int) : Nat → Script → List Int × Script
  | 0, script => (drawn.reverse, script)
  | count + 1, script => manyBelow n ((below n script).1 :: drawn) count (below n script).2

/-- The source that draws everything by numbers below a bound. -/
def source : RandomSource Script where
  between a b script :=
    let (n, script) := below (b - a + 1) script
    (a + n, script)
  picks population count script :=
    let (indices, script) := manyBelow population.length [] count.toNat script
    (indices.filterMap fun i => population[i.toNat]?, script)
  bytes count script :=
    let (numbers, script) := manyBelow 256 [] count.toNat script
    (numbers.map fun n => UInt8.ofNat n.toNat, script)

end Script

end ByteLayout
