import ByteLayout.Log
import ByteLayout.OutputBuffer
import ByteLayout.Random
import ByteLayout.Sequence

/-!
# Generation

One message of a group. Its fields are emitted in order into a buffer of the greatest allowed size,
less the terminator if it is to be appended. Random lengths are drawn between the bounds of the
field, each lowered to the room that is left. A field that does not fit is cut, and emission ends
with it; no field is visited once the buffer is full. A field that cannot be written ends the run
with an error: a constant with surrogates, a number of too many digits or outside its format.

A `Session` carries the state of the random source, the draws and the records so far. It survives
an error, so that both show what happened before it.
-/

namespace ByteLayout

/-- The letters and digits of random texts. -/
def alphanumeric : List Char :=
  "ABCDEFGHIJKLMNOPQRSTUVWXYZabcdefghijklmnopqrstuvwxyz0123456789".toList

/-- Why a field cannot be written. -/
inductive EmissionError where
  /-- A text has no bytes, or a number no text. -/
  | unwritable (e : Text.Unwritable)
  /-- A number does not fit its format. -/
  | number (e : EncodingError)
  deriving DecidableEq, Repr

/-- The text of the error. -/
def EmissionError.message : EmissionError → Text
  | unwritable e => e.message
  | number e => e.message

/-- The state of a random source, and what happened so far. -/
structure Session (σ : Type) where
  /-- The state of the source. -/
  state : σ
  /-- What was asked of the source, in order. -/
  draws : List Draw := []
  /-- The records, in order. -/
  log : List LogEvent := []

namespace Session

variable {σ : Type}

/-- A session with one record more. -/
def record (s : Session σ) (e : LogEvent) : Session σ :=
  { s with log := s.log ++ [e] }

/-- Draws a number between two bounds. -/
def between (source : RandomSource σ) (a b : Int) (s : Session σ) : Int × Session σ :=
  let (n, state) := source.between a b s.state
  (n, { s with state, draws := s.draws ++ [.between a b] })

/-- Draws members of a population. -/
def picks (source : RandomSource σ) (population : List Char) (count : Int) (s : Session σ) :
    List Char × Session σ :=
  let (cs, state) := source.picks population count s.state
  (cs, { s with state, draws := s.draws ++ [.picks population.length count] })

/-- Draws bytes. -/
def bytes (source : RandomSource σ) (count : Int) (s : Session σ) : List UInt8 × Session σ :=
  let (bs, state) := source.bytes count s.state
  (bs, { s with state, draws := s.draws ++ [.bytes count] })

/-- Draws a length between two bounds, each lowered to the room. Nothing is drawn if they meet. -/
def length (source : RandomSource σ) (bounds : LengthBounds) (room : Nat) (s : Session σ) :
    Int × Session σ :=
  let lower := min bounds.min room
  let upper := min bounds.max room
  if lower = upper then (lower, s) else s.between source lower upper

/-- The bytes that a field emits when there is room for so many. -/
def emit (source : RandomSource σ) (d : FieldDefinition) (room : Nat) (s : Session σ) :
    Except EmissionError (List UInt8) × Session σ :=
  match d with
  | .constant text => ((Text.utf8 text).mapError .unwritable, s)
  | .text bounds =>
    let (n, s) := s.length source bounds room
    let (cs, s) := s.picks source alphanumeric n
    ((Text.encode .ascii (cs.map .scalar)).mapError .unwritable, s)
  | .bytes bounds =>
    let (n, s) := s.length source bounds room
    let (bs, s) := s.bytes source n
    (.ok bs, s)
  | .textNumber range display =>
    let (n, s) := s.between source range.min range.max
    ((numeralBytes n display).mapError .unwritable, s)
  | .byteNumber range order =>
    let (n, s) := s.between source range.min range.max
    ((range.format.encode order n).mapError .number, s)

/-- Emits fields into a buffer; `group` is the name of their group in records. -/
def emitFields (source : RandomSource σ) (group : Text) :
    List Field → OutputBuffer → Session σ → Except EmissionError OutputBuffer × Session σ
  | [], buffer, s => (.ok buffer, s)
  | f :: fs, buffer, s =>
    if buffer.isFull then (.ok buffer, s.record (.outputFull group))
    else
      match s.emit source f.definition buffer.room with
      | (.error e, s) => (.error e, s)
      | (.ok data, s) =>
        let (after, complete) := buffer.write data
        let s := s.record (.emitted (after.length - buffer.length) f.name)
        if complete then emitFields source group fs after s else (.ok after, s)

end Session

/-- Why no message is generated. -/
inductive GenerationError where
  /-- There is nothing to generate from. -/
  | problem (p : Problem)
  /-- The output has no capacity. -/
  | capacity (e : CapacityError)
  /-- A field cannot be written. -/
  | emission (e : EmissionError)
  deriving DecidableEq, Repr

namespace Generator

/-- The bytes after the fields: the terminator cut at the greatest size, if it is to be appended. -/
def ending (g : Generator) (appendTerminator : Bool) : List UInt8 :=
  if appendTerminator then Sequence.before g.terminator g.outMax else []

end Generator

/-- Generates a message of a group as a generator says. -/
def generateGroup {σ : Type} (source : RandomSource σ) (appendTerminator : Bool) (g : Generator)
    (group : Group) (s : Session σ) : Except GenerationError (List UInt8) × Session σ :=
  let s := if g.outMax < g.outMin then s.record (.boundsCrossed g) else s
  let ending := g.ending appendTerminator
  match OutputBuffer.ofCapacity (g.outMax - ending.length) with
  | .error e => (.error (.capacity e), s)
  | .ok buffer =>
    match s.emitFields source group.name group.fields buffer with
    | (.error e, s) => (.error (.emission e), s)
    | (.ok buffer, s) => (.ok (buffer.content ++ ending), s)

/-- Generates a message from an environment. -/
def generate {σ : Type} (source : RandomSource σ) (appendTerminator : Bool) (env : Environment)
    (s : Session σ) : Except GenerationError (List UInt8) × Session σ :=
  match env.target with
  | .error p => (.error (.problem p), s)
  | .ok (g, group) => generateGroup source appendTerminator g group s

/-- Generates messages one after the other, behind those in `done`, which are in reverse order, up
to the first error. -/
def generateManyFrom {σ : Type} (source : RandomSource σ) (appendTerminator : Bool)
    (env : Environment) (done : List (List UInt8)) :
    Nat → Session σ → Except GenerationError (List (List UInt8)) × Session σ
  | 0, s => (.ok done.reverse, s)
  | runs + 1, s =>
    match generate source appendTerminator env s with
    | (.error e, s) => (.error e, s)
    | (.ok message, s) => generateManyFrom source appendTerminator env (message :: done) runs s

end ByteLayout
