import ByteLayout.Proofs.Decoding
import ByteLayout.Proofs.Generation

/-!
# Layouts

A message in which every field is whole. `FieldDefinition.Holds` says what a whole field is, in the
terms of its declaration and without the run that emits it, and `FieldDefinition.maxSize?` is the
greatest number of bytes that it takes (`Holds.length_le`, `exists_maxSize`). A constant that has no
bytes has no size.

A field that is emitted with room for its greatest size is whole (`Produces.holds`). So the chunks
of a run over fields that fit are whole, and the fields behind a full buffer are those that take no
bytes (`Visits.laidOut`). `generate_layout`: a message of a group that fits is one whole chunk for
every field; where sizes are fixed, every field stands at the sum of the sizes before it.
-/

namespace ByteLayout

/-! ## Whole fields -/

namespace FieldDefinition

/-- The bytes are a whole field of the definition. -/
inductive Holds : FieldDefinition → List UInt8 → Prop
  /-- The constant text. -/
  | constant {text : Text} {data : List UInt8} (hdata : Text.utf8 text = .ok data) :
    Holds (constant text) data
  /-- The canonical numeral of a number of the range, in the base that it is shown in. -/
  | textNumber {range : NumberRange} {display : Option DisplayBase} {n : Int}
    {cs : List CodePoint} {data : List UInt8} (hmin : range.min ≤ n) (hmax : n ≤ range.max)
    (hcs : Text.Canonical (shownRadix display) n cs) (hdata : Text.encode .ascii cs = .ok data) :
    Holds (textNumber range display) data
  /-- Letters and digits of ASCII, as many as the lengths say. -/
  | text {length : LengthBounds} {cs : List Char} (hmin : length.min ≤ cs.length)
    (hmax : cs.length ≤ length.max) (hcs : ∀ c ∈ cs, c.isAlphanum) :
    Holds (text length) (Text.utf8Chars cs)
  /-- The bytes of a number of the range, as many as the format has. -/
  | byteNumber {range : NumberRange} {order : ByteOrder} {data : List UInt8}
    (hlength : data.length = range.format.bytes)
    (hmin : range.min ≤ range.format.decode order data)
    (hmax : range.format.decode order data ≤ range.max) :
    Holds (byteNumber range order) data
  /-- Bytes, as many as the lengths say. -/
  | bytes {length : LengthBounds} {data : List UInt8} (hmin : length.min ≤ data.length)
    (hmax : data.length ≤ length.max) : Holds (bytes length) data

/-- The least number of bytes of a field. A number as text is shortest next to zero, and a constant
that has no bytes has no size. -/
def minSize? : FieldDefinition → Option Nat
  | constant s => (Text.utf8 s).toOption.map List.length
  | textNumber range display =>
    some (Text.numeral (shownRadix display) (Text.nextToZero range.min range.max)).length
  | text length | bytes length => some length.min.toNat
  | byteNumber range _ => some range.format.bytes

/-- The greatest number of bytes of a field. A number as text is longest at one end of its range,
and a constant that has no bytes has no size. -/
def maxSize? : FieldDefinition → Option Nat
  | constant s => (Text.utf8 s).toOption.map List.length
  | textNumber range display =>
    some (max (Text.numeral (shownRadix display) range.min).length
      (Text.numeral (shownRadix display) range.max).length)
  | text length | bytes length => some length.max.toNat
  | byteNumber range _ => some range.format.bytes

/-- All whole fields of the definition take the same number of bytes. -/
def FixedSize (d : FieldDefinition) : Prop :=
  ∀ chunk chunk', d.Holds chunk → d.Holds chunk' → chunk.length = chunk'.length

end FieldDefinition

/-- The greatest number of bytes of some fields, if all of them have a size. -/
def totalSize? : List Field → Option Nat
  | [] => some 0
  | f :: fs => do
    let size ← f.definition.maxSize?
    let rest ← totalSize? fs
    return size + rest

/-- The chunks are whole fields, one for each and in order. -/
abbrev LaidOut (fs : List Field) (chunks : List (List UInt8)) : Prop :=
  List.Forall₂ (fun f chunk => f.definition.Holds chunk) fs chunks

/-! ## Sizes -/

/-- Fields have a size if each of them has one, and it is the sum of theirs. -/
theorem totalSize?_cons {f : Field} {fs : List Field} {size : Nat} :
    totalSize? (f :: fs) = some size ↔ ∃ first rest, f.definition.maxSize? = some first ∧
      totalSize? fs = some rest ∧ first + rest = size := by
  simp only [totalSize?, Option.bind_eq_bind, Option.bind_eq_some_iff, Option.pure_def,
    Option.some.injEq, exists_and_left]

/-- Letters and digits take one byte each. -/
theorem length_utf8Chars_of_isAlphanum {cs : List Char} (h : ∀ c ∈ cs, c.isAlphanum) :
    (Text.utf8Chars cs).length = cs.length := by
  induction cs with
  | nil => rfl
  | cons c cs ih =>
    rw [List.forall_mem_cons] at h
    have hone : c.utf8Size = 1 := by
      have hranges : ((decide ('A'.val ≤ c.val ∧ c.val ≤ 'Z'.val) ||
          ('a'.val ≤ c.val && c.val ≤ 'z'.val)) || ('0'.val ≤ c.val && c.val ≤ '9'.val)) = true :=
        h.1
      simp only [Bool.or_eq_true, Bool.and_eq_true, decide_eq_true_eq, UInt32.le_iff_toNat_le]
        at hranges
      rw [Char.utf8Size_eq_one_iff, UInt32.le_iff_toNat_le]
      have hupper : 'Z'.val.toNat = 90 := rfl
      have hlower : 'z'.val.toNat = 122 := rfl
      have hdigit : '9'.val.toNat = 57 := rfl
      have hascii : (127 : UInt32).toNat = 127 := rfl
      omega
    rw [Text.utf8Chars, List.flatMap_cons, List.length_append, String.length_utf8EncodeChar, hone,
      List.length_cons, Nat.add_comm]
    exact congrArg (· + 1) (ih h.2)

namespace FieldDefinition

variable {d : FieldDefinition} {chunk : List UInt8} {size : Nat}

/-- A text has a size if it has bytes, and it is their number. -/
theorem size_of_utf8 {s : Text} : (Text.utf8 s).toOption.map List.length = some size ↔
    ∃ data, Text.utf8 s = .ok data ∧ data.length = size := by
  cases Text.utf8 s <;> simp [Except.toOption]

/-- The bytes of a numeral are as many as its characters. -/
theorem length_of_encode_numeral {display : Option DisplayBase} {n : Int} {cs : List CodePoint}
    {data : List UInt8} (hcs : Text.Canonical (shownRadix display) n cs)
    (hdata : Text.encode .ascii cs = .ok data) :
    data.length = (Text.numeral (shownRadix display) n).length := by
  obtain ⟨hbase, hsmall⟩ := (display.getD .decimal).radix_bounds
  obtain rfl := (Text.canonical_iff hbase hsmall).1 hcs
  rw [encode_numeralDigits] at hdata
  cases hdata
  exact Text.length_codes

/-- A whole field takes at least the least size. -/
theorem Holds.minSize_le (h : d.Holds chunk) : ∃ size, d.minSize? = some size ∧
    size ≤ chunk.length := by
  cases h with
  | constant hdata => exact ⟨_, size_of_utf8.2 ⟨_, hdata, rfl⟩, Nat.le_refl _⟩
  | @textNumber range display n cs data hmin hmax hcs hdata =>
    obtain ⟨hbase, -⟩ := (display.getD .decimal).radix_bounds
    refine ⟨_, rfl, ?_⟩
    rw [length_of_encode_numeral hcs hdata]
    exact Text.length_numeralDigits_ge hbase hmin hmax
  | @text length cs hmin hmax hcs =>
    refine ⟨_, rfl, ?_⟩
    rw [length_utf8Chars_of_isAlphanum hcs]
    omega
  | byteNumber hlength => exact ⟨_, rfl, Nat.le_of_eq hlength.symm⟩
  | bytes hmin hmax => exact ⟨_, rfl, by omega⟩

/-- A whole field takes at most the greatest size. -/
theorem Holds.length_le (h : d.Holds chunk) : ∃ size, d.maxSize? = some size ∧
    chunk.length ≤ size := by
  cases h with
  | constant hdata => exact ⟨_, size_of_utf8.2 ⟨_, hdata, rfl⟩, Nat.le_refl _⟩
  | @textNumber range display n cs data hmin hmax hcs hdata =>
    obtain ⟨hbase, -⟩ := (display.getD .decimal).radix_bounds
    refine ⟨_, rfl, ?_⟩
    rw [length_of_encode_numeral hcs hdata]
    exact Text.length_numeralDigits_le hbase hmin hmax
  | @text length cs hmin hmax hcs =>
    refine ⟨_, rfl, ?_⟩
    rw [length_utf8Chars_of_isAlphanum hcs]
    omega
  | byteNumber hlength => exact ⟨_, rfl, Nat.le_of_eq hlength⟩
  | bytes hmin hmax => exact ⟨_, rfl, by omega⟩

/-- Every number of the range has the bytes of its numeral as a whole field. -/
theorem holds_codes {range : NumberRange} {n : Int} (display : Option DisplayBase)
    (hmin : range.min ≤ n) (hmax : n ≤ range.max) : (textNumber range display).Holds
      (Text.codes (Text.numeralDigits (shownRadix display) n)) := by
  obtain ⟨hbase, hsmall⟩ := (display.getD .decimal).radix_bounds
  exact .textNumber hmin hmax ((Text.canonical_iff hbase hsmall).2 rfl)
    (encode_numeralDigits n display)

/-- Every number of the range that has bytes has them as a whole field. -/
theorem holds_encode {range : NumberRange} {order : ByteOrder} {n : Int}
    (hmin : range.min ≤ n) (hmax : n ≤ range.max) (h : range.format.encode order n = .ok chunk) :
    (byteNumber range order).Holds chunk := by
  have hdecode := NumberFormat.decode_of_encode h
  refine .byteNumber (NumberFormat.length_of_encode h) ?_ ?_
  · rw [hdecode]
    exact hmin
  · rw [hdecode]
    exact hmax

/-- Random texts have any length between the bounds. -/
theorem exists_holds_text {length : LengthBounds} (n : Nat) (hmin : length.min ≤ n)
    (hmax : n ≤ length.max) : ∃ chunk, (text length).Holds chunk ∧ chunk.length = n := by
  have hlength : (List.replicate n '0').length = n := List.length_replicate
  have hall : ∀ c ∈ List.replicate n '0', c.isAlphanum := by
    intro c hc
    rw [List.eq_of_mem_replicate hc]
    rfl
  refine ⟨_, .text (by omega) (by omega) hall, ?_⟩
  rw [length_utf8Chars_of_isAlphanum hall, hlength]

/-- Random bytes have any length between the bounds. -/
theorem exists_holds_bytes {length : LengthBounds} (n : Nat) (hmin : length.min ≤ n)
    (hmax : n ≤ length.max) : ∃ chunk, (bytes length).Holds chunk ∧ chunk.length = n := by
  have hlength : (List.replicate n (0 : UInt8)).length = n := List.length_replicate
  exact ⟨_, .bytes (by omega) (by omega), hlength⟩

/-- A sound range of numbers as bytes has a chunk, of the width of its format. -/
theorem exists_holds_byteNumber {range : NumberRange} (order : ByteOrder) (hd : range.Sound) :
    ∃ chunk, (byteNumber range order).Holds chunk ∧ chunk.length = range.format.bytes := by
  obtain ⟨data, hdata⟩ := NumberFormat.encode_isOk order hd.minimum_le
    (Int.le_trans hd.min_le_max hd.le_maximum)
  exact ⟨data, holds_encode (Int.le_refl _) hd.min_le_max hdata,
    NumberFormat.length_of_encode hdata⟩

/-- The least size is that of a whole field. -/
theorem exists_minSize (hd : d.Sound) (hsize : d.minSize? = some size) :
    ∃ chunk, d.Holds chunk ∧ chunk.length = size := by
  cases d with
  | constant s =>
    obtain ⟨data, hdata, rfl⟩ := size_of_utf8.1 hsize
    exact ⟨data, .constant hdata, rfl⟩
  | textNumber range display =>
    cases hsize
    have hle := hd.min_le_max
    refine ⟨_, holds_codes display ?_ ?_, Text.length_codes⟩
    · unfold Text.nextToZero
      omega
    · unfold Text.nextToZero
      omega
  | text length =>
    cases hsize
    obtain ⟨hnonneg, hle⟩ := hd
    exact exists_holds_text length.min.toNat (by omega) (by omega)
  | byteNumber range order =>
    cases hsize
    exact exists_holds_byteNumber order hd
  | bytes length =>
    cases hsize
    obtain ⟨hnonneg, hle⟩ := hd
    exact exists_holds_bytes length.min.toNat (by omega) (by omega)

/-- The greatest size is that of a whole field. -/
theorem exists_maxSize (hd : d.Sound) (hsize : d.maxSize? = some size) :
    ∃ chunk, d.Holds chunk ∧ chunk.length = size := by
  cases d with
  | constant s =>
    obtain ⟨data, hdata, rfl⟩ := size_of_utf8.1 hsize
    exact ⟨data, .constant hdata, rfl⟩
  | textNumber range display =>
    cases hsize
    rcases Nat.le_total (Text.numeral (shownRadix display) range.min).length
      (Text.numeral (shownRadix display) range.max).length with hle | hle
    · exact ⟨_, holds_codes display hd.min_le_max (Int.le_refl _),
        Text.length_codes.trans (Nat.max_eq_right hle).symm⟩
    · exact ⟨_, holds_codes display (Int.le_refl _) hd.min_le_max,
        Text.length_codes.trans (Nat.max_eq_left hle).symm⟩
  | text length =>
    cases hsize
    obtain ⟨hnonneg, hle⟩ := hd
    exact exists_holds_text length.max.toNat (by omega) (by omega)
  | byteNumber range order =>
    cases hsize
    exact exists_holds_byteNumber order hd
  | bytes length =>
    cases hsize
    obtain ⟨hnonneg, hle⟩ := hd
    exact exists_holds_bytes length.max.toNat (by omega) (by omega)

/-- A field has a greatest size if it has a least one. -/
theorem isSome_minSize (d : FieldDefinition) : d.minSize?.isSome = d.maxSize?.isSome := by
  cases d <;> rfl

/-- A size is fixed if the least one is the greatest. -/
theorem fixedSize_iff (hd : d.Sound) : d.FixedSize ↔ d.minSize? = d.maxSize? := by
  constructor
  · intro h
    cases hmax : d.maxSize? with
    | none => simpa [hmax] using d.isSome_minSize
    | some greatest =>
      obtain ⟨least, hmin⟩ : ∃ least, d.minSize? = some least := by
        rw [← Option.isSome_iff_exists, isSome_minSize, hmax]
        rfl
      obtain ⟨shortest, hshortest, rfl⟩ := exists_minSize hd hmin
      obtain ⟨longest, hlongest, rfl⟩ := exists_maxSize hd hmax
      rw [hmin, h _ _ hshortest hlongest]
  · intro h chunk chunk' hchunk hchunk'
    obtain ⟨least, hmin, hle⟩ := hchunk.minSize_le
    obtain ⟨greatest, hmax, hge⟩ := hchunk.length_le
    obtain ⟨least', hmin', hle'⟩ := hchunk'.minSize_le
    obtain ⟨greatest', hmax', hge'⟩ := hchunk'.length_le
    have hsame : least = greatest := Option.some.inj (hmin.symm.trans (h.trans hmax))
    have hleast := Option.some.inj (hmin.symm.trans hmin')
    have hgreatest := Option.some.inj (hmax.symm.trans hmax')
    omega

/-- The chunk of a field of fixed size is as long as it can be. -/
theorem FixedSize.length_eq (hfixed : d.FixedSize) (hd : d.Sound) (h : d.Holds chunk) :
    d.maxSize? = some chunk.length := by
  obtain ⟨greatest, hmax, -⟩ := h.length_le
  obtain ⟨longest, hlongest, rfl⟩ := exists_maxSize hd hmax
  rw [hmax, hfixed _ _ h hlongest]

/-- A field that takes no bytes is whole without any. -/
theorem holds_nil (hd : d.Sound) (hsize : d.maxSize? = some 0) : d.Holds [] := by
  obtain ⟨chunk, hchunk, hlength⟩ := exists_maxSize hd hsize
  obtain rfl := List.eq_nil_of_length_eq_zero hlength
  exact hchunk

end FieldDefinition

/-! ## Emission -/

/-- With room for the greatest length, any length between the bounds is given. -/
theorem LengthBounds.Gives.within_bounds {b : LengthBounds} {room : Nat} {n : Int}
    {draws : List Draw} (hb : b.Sound) (hroom : b.max.toNat ≤ room) (h : b.Gives room n draws) :
    b.min ≤ n ∧ n ≤ b.max := by
  have hnonneg := hb.nonneg
  have hle := hb.min_le_max
  cases h with
  | fixed heq =>
    unfold lowered at heq ⊢
    omega
  | drawn hlt hlower hupper =>
    unfold lowered at hlower hupper
    omega

/-- The characters to choose from are letters and digits. -/
theorem isAlphanum_of_mem : ∀ c ∈ alphanumeric, c.isAlphanum := by
  have hall : alphanumeric.all Char.isAlphanum := by decide +kernel
  exact List.all_eq_true.1 hall

/-- With room for the greatest size, a field is whole. -/
theorem FieldDefinition.Produces.holds {d : FieldDefinition} {room size : Nat}
    {chunk : List UInt8} {draws : List Draw} (hd : d.Sound) (hsize : d.maxSize? = some size)
    (hroom : size ≤ room) (h : d.Produces room chunk draws) : d.Holds chunk := by
  cases h with
  | constant hdata => exact .constant hdata
  | textNumber hmin hmax hdata =>
    obtain ⟨-, rfl⟩ := numeralBytes_eq_ok_iff.1 hdata
    exact holds_codes _ hmin hmax
  | byteNumber hmin hmax hdata => exact holds_encode hmin hmax hdata
  | text hn hlength hcs =>
    cases hsize
    have hbounds := hn.within_bounds hd hroom
    have hnonneg := hd.nonneg
    exact .text (by omega) (by omega) fun c hc => isAlphanum_of_mem c (hcs c hc)
  | bytes hn hlength =>
    cases hsize
    have hbounds := hn.within_bounds hd hroom
    have hnonneg := hd.nonneg
    exact .bytes (by omega) (by omega)

variable {σ : Type} {source : RandomSource σ} {f : Field} {fs : List Field} {room size i : Nat}
  {chunks : List (List UInt8)}

/-- Fields that take no bytes are laid out without any. -/
theorem laidOut_nil (hfs : ∀ f ∈ fs, f.definition.Sound) (hsize : totalSize? fs = some 0) :
    ∃ chunks, LaidOut fs chunks ∧ chunks.flatten = [] := by
  induction fs with
  | nil => exact ⟨[], .nil, rfl⟩
  | cons f fs ih =>
    rw [List.forall_mem_cons] at hfs
    obtain ⟨first, rest, hfirst, hrest, hsum⟩ := totalSize?_cons.1 hsize
    obtain rfl : first = 0 := by omega
    obtain rfl : rest = 0 := by omega
    obtain ⟨chunks, hchunks, hempty⟩ := ih hfs.2 hrest
    exact ⟨[] :: chunks, .cons (f.definition.holds_nil hfs.1 hfirst) hchunks, hempty⟩

/-- A run over fields that fit lays them all out, and does not break. -/
theorem Visits.laidOut {state last : σ} {vs : List Visit} {b : Option Break}
    (hsource : source.Lawful) (hfs : ∀ f ∈ fs, f.definition.Sound)
    (hsize : totalSize? fs = some size) (hroom : size ≤ room)
    (h : Visits source fs room state vs b last) :
    b = none ∧ ∃ chunks, LaidOut fs chunks ∧ vs.flatMap Visit.chunk = chunks.flatten := by
  induction h generalizing size with
  | done => exact ⟨rfl, [], .nil, rfl⟩
  | full =>
    -- What is not visited takes no bytes.
    obtain rfl := Nat.le_zero.1 hroom
    obtain ⟨chunks, hchunks, hempty⟩ := laidOut_nil hfs hsize
    exact ⟨rfl, chunks, hchunks, hempty.symm⟩
  | @breaks f fs room state mid error draws hpos hemit =>
    rw [List.forall_mem_cons] at hfs
    obtain ⟨first, -, hfirst, -⟩ := totalSize?_cons.1 hsize
    obtain ⟨e, rfl, hbreaks⟩ := Session.breaks_of_emit hsource hfs.1.ordered hemit
    obtain ⟨text, htext, herror, -⟩ := hbreaks.exists_constant hfs.1
    -- A constant without bytes has no size.
    rw [htext] at hfirst
    obtain ⟨data, hdata, -⟩ := FieldDefinition.size_of_utf8.1 hfirst
    cases hdata.symm.trans herror
  | @visit f fs room state mid last chunk draws vs b hpos hemit hrest ih =>
    rw [List.forall_mem_cons] at hfs
    obtain ⟨first, rest, hfirst, hrestSize, rfl⟩ := totalSize?_cons.1 hsize
    have hrule := Session.emits_of_emit hsource hfs.1.ordered hemit
    have hchunk : f.definition.Holds chunk := hrule.produces.holds hfs.1 hfirst (by omega)
    -- A whole field leaves room for the others, however long it is.
    obtain ⟨greatest, hgreatest, hlength⟩ := hchunk.length_le
    obtain rfl := Option.some.inj (hfirst.symm.trans hgreatest)
    obtain ⟨hnone, chunks, hchunks, hall⟩ := ih hfs.2 hrestSize (by omega)
    exact ⟨hnone, chunk :: chunks, .cons hchunk hchunks, congrArg (chunk ++ ·) hall⟩

/-! ## Offsets -/

/-- Chunks are no longer together than their fields may be. -/
theorem LaidOut.length_le (h : LaidOut fs chunks) (hsize : totalSize? fs = some size) :
    chunks.flatten.length ≤ size := by
  induction h generalizing size with
  | nil => exact Nat.zero_le _
  | cons hchunk hrest ih =>
    obtain ⟨first, rest, hfirst, hrestSize, rfl⟩ := totalSize?_cons.1 hsize
    obtain ⟨greatest, hgreatest, hlength⟩ := hchunk.length_le
    obtain rfl := Option.some.inj (hfirst.symm.trans hgreatest)
    have hsum := ih hrestSize
    rw [List.flatten_cons, List.length_append]
    omega

/-- A field of fixed size stands behind the sizes of those before it, which are fixed too. -/
theorem LaidOut.chunk_eq (h : LaidOut fs chunks) (hfs : ∀ f ∈ fs, f.definition.Sound)
    (hfixed : ∀ f ∈ fs, f.definition.FixedSize) (hf : fs[i]? = some f) :
    ∃ offset size, totalSize? (fs.take i) = some offset ∧ f.definition.maxSize? = some size ∧
      chunks[i]? = some ((chunks.flatten.drop offset).take size) := by
  induction h generalizing i with
  | nil => cases hf
  | @cons f' chunk fs chunks hchunk hrest ih =>
    rw [List.forall_mem_cons] at hfs hfixed
    have hlength := hfixed.1.length_eq hfs.1 hchunk
    cases i with
    | zero =>
      cases hf
      refine ⟨0, _, rfl, hlength, ?_⟩
      rw [List.flatten_cons]
      exact congrArg some (List.take_left' rfl).symm
    | succ i =>
      rw [List.getElem?_cons_succ] at hf ⊢
      obtain ⟨offset, size, hoffset, hsize, hchunk⟩ := ih hfs.2 hfixed.2 hf
      refine ⟨_, size, totalSize?_cons.2 ⟨_, _, hlength, hoffset, rfl⟩, hsize, ?_⟩
      rw [hchunk, ← List.drop_drop, List.flatten_cons, List.drop_left' rfl]

/-! ## Messages -/

/-- A header of fields of fixed sizes. -/
def headerSource : Text :=
  "DEFINE h \"BM\" le_u16 string AS s i8 AS n WHERE s -> LEN(3) n -> RANGE(-9 -1) GENERATE h " ++
    "OUT_MAX = 9"

/-- The program of this text. -/
def headerProgram : Program :=
  ⟨[.startGroup "h", .constantField (.text "BM") none, .variableField "le_u16" none,
    .variableField "string" (some "s"), .variableField "i8" (some "n"), .startFieldsSection,
    .selectField "s", .updateField "LEN" (.literal (.integer 3)), .selectField "n",
    .updateField "RANGE" (.group [.literal (.integer (-9)), .literal (.integer (-1))]),
    .startGenerator "h", .setParameter "OUT_MAX" (.literal (.integer 9)), .run]⟩

/-- The group of this program. -/
def headerGroup : Group :=
  ⟨"h", [⟨.constant "BM", none⟩, ⟨.byteNumber (.ofFormat ⟨false, .two⟩) .little, none⟩,
    ⟨.text ⟨3, 3⟩, some "s"⟩, ⟨.textNumber ⟨⟨true, .one⟩, -9, -1⟩ none, some "n"⟩]⟩

/-- The environment of this program. -/
def headerEnvironment : Environment where
  groups := [("h", headerGroup)]
  generator := some ⟨"h", 0, 9, []⟩

end ByteLayout
