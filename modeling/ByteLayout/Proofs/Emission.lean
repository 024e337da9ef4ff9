import ByteLayout.Generation
import ByteLayout.Proofs.Rendering
import ByteLayout.Proofs.Soundness

/-!
# Emission

What a run over the fields of a group does, as a list of visits. A visit is a field with the room
that was left for it, the bytes that it emitted before they were cut, and its draws; `Visits` says
how one visit follows from the other. A run ends early with a `Break` at a field that cannot be
written. `visits_emitFields`: the bytes of a run are those of its visits, cut at the room, unless it
breaks, and its draws are theirs and those of the break.

`FieldDefinition.Produces` is the rule by which a field emits, and `FieldDefinition.Emits` the same
rule with the answers of the source; `FieldDefinition.Breaks` says which fields cannot be written.
An ordered definition does the one or the other whatever a lawful source answers (`emit_cases`). A
sound definition asks the source for nothing else than what `FieldDefinition.Allows`, and breaks a
run only as a constant.
-/

namespace ByteLayout

/-! ## Buffers -/

namespace OutputBuffer

/-- A buffer is full if it has no room left. -/
theorem isFull_iff {b : OutputBuffer} : b.isFull = true ↔ b.room = 0 := by
  simp [isFull]

@[simp] theorem content_append (b : OutputBuffer) (data : List UInt8) :
    (b.append data).content = b.content ++ data.take b.room := rfl

/-- What is written takes its room, as far as there is any. -/
@[simp] theorem room_append (b : OutputBuffer) (data : List UInt8) :
    (b.append data).room = b.room - data.length := by
  have hroom : b.room = b.capacity - b.content.length := rfl
  show b.capacity - (b.content ++ data.take b.room).length = _
  rw [List.length_append, List.length_take]
  omega

/-- What fits is written, and the write is told complete. -/
theorem write_of_le {b : OutputBuffer} {data : List UInt8} (h : data.length ≤ b.room) :
    b.write data = (b.append data, true) :=
  congrArg (Prod.mk _) (decide_eq_true h)

/-- What does not fit is cut, and the write is told incomplete. -/
theorem write_of_not_le {b : OutputBuffer} {data : List UInt8} (h : ¬ data.length ≤ b.room) :
    b.write data = (b.append data, false) :=
  congrArg (Prod.mk _) (decide_eq_false h)

end OutputBuffer

variable {σ : Type} {source : RandomSource σ}

/-! ## Visits -/

/-- What became of a field. -/
structure Visit where
  /-- The field. -/
  field : Field
  /-- The room that was left for the field. -/
  room : Nat
  /-- The bytes of the field before they were cut. -/
  chunk : List UInt8
  /-- What was asked of the source. -/
  draws : List Draw

/-- The number of bytes of some visits before they are cut. -/
def emitted (vs : List Visit) : Nat :=
  (vs.flatMap Visit.chunk).length

theorem emitted_cons (v : Visit) (vs : List Visit) :
    emitted (v :: vs) = v.chunk.length + emitted vs := by
  rw [emitted, List.flatMap_cons, List.length_append, emitted]

/-- The early end of a run: a field that cannot be written. -/
structure Break where
  /-- Why it cannot be written. -/
  error : EmissionError
  /-- What was asked of the source for it. -/
  draws : List Draw

/-- What a run makes of some bytes. They are lost if it ends early. -/
def outcome (b : Option Break) (bytes : List UInt8) : Except EmissionError (List UInt8) :=
  match b with
  | none => .ok bytes
  | some b => .error b.error

/-- A session in which nothing happened yet. -/
def Session.start (state : σ) : Session σ :=
  { state }

/-- The visits of fields that there is so much room for, between two states of the source, and the
break of the run if there is one. Fields are visited in order as long as there is room. -/
inductive Visits (source : RandomSource σ) :
    List Field → Nat → σ → List Visit → Option Break → σ → Prop
  /-- There is no field. -/
  | done {room : Nat} {state : σ} : Visits source [] room state [] none state
  /-- There is no room. -/
  | full {fs : List Field} {state : σ} : Visits source fs 0 state [] none state
  /-- The first field cannot be written. -/
  | breaks {f : Field} {fs : List Field} {room : Nat} {state mid : σ} {error : EmissionError}
      {draws : List Draw} (hroom : 0 < room)
      (hemit : (Session.start state).emit source f.definition room =
        (.error error, { state := mid, draws })) :
      Visits source (f :: fs) room state [] (some ⟨error, draws⟩) mid
  /-- The first field is visited, and the others with the room that it leaves. -/
  | visit {f : Field} {fs : List Field} {room : Nat} {state mid last : σ} {chunk : List UInt8}
      {draws : List Draw} {vs : List Visit} {b : Option Break} (hroom : 0 < room)
      (hemit : (Session.start state).emit source f.definition room =
        (.ok chunk, { state := mid, draws }))
      (hrest : Visits source fs (room - chunk.length) mid vs b last) :
      Visits source (f :: fs) room state (⟨f, room, chunk, draws⟩ :: vs) b last

namespace Session

/-- What a field emits depends on the state of the source only. -/
theorem emit_eq (source : RandomSource σ) (d : FieldDefinition) (room : Nat) (s : Session σ) :
    s.emit source d room =
      (((start s.state).emit source d room).1,
        { s with
          state := ((start s.state).emit source d room).2.state
          draws := s.draws ++ ((start s.state).emit source d room).2.draws }) := by
  cases d with
  | constant text =>
    simp [emit, start]
  | textNumber range display =>
    simp [emit, start, between]
  | byteNumber range order =>
    simp [emit, start, between]
  | text bounds =>
    unfold emit length
    dsimp only
    split
    · simp [picks, start]
    · simp [picks, start, between]
  | bytes bounds =>
    unfold emit length
    dsimp only
    split
    · simp [Session.bytes, start]
    · simp [Session.bytes, start, between]

/-- What a field emits into a session, told of a session in which nothing happened yet. -/
theorem emit_eq_iff {d : FieldDefinition} {room : Nat} {s s' : Session σ}
    {result : Except EmissionError (List UInt8)} :
    s.emit source d room = (result, s') ↔
      ∃ mid draws, (start s.state).emit source d room = (result, { state := mid, draws }) ∧
        s' = { s with state := mid, draws := s.draws ++ draws } := by
  have hstart := emit_eq source d room (start s.state)
  rw [emit_eq]
  constructor
  · intro h
    cases h
    exact ⟨_, _, hstart, rfl⟩
  · rintro ⟨mid, draws, hemit, rfl⟩
    rw [hemit]

/-- A run consists of visits, and breaks if one of them fails. -/
theorem visits_emitFields (source : RandomSource σ) (group : Text) (fs : List Field)
    (buffer : OutputBuffer) (s : Session σ) : ∃ vs b,
    Visits source fs buffer.room s.state vs b (s.emitFields source group fs buffer).2.state ∧
      (s.emitFields source group fs buffer).1.map OutputBuffer.content =
        outcome b (buffer.content ++ (vs.flatMap Visit.chunk).take buffer.room) ∧
      (s.emitFields source group fs buffer).2.draws =
        s.draws ++ (vs.flatMap Visit.draws ++ b.toList.flatMap Break.draws) := by
  induction fs generalizing buffer s with
  | nil => exact ⟨[], none, .done, by simp [emitFields, outcome, Except.map], by simp [emitFields]⟩
  | cons f fs ih =>
    unfold emitFields
    by_cases hfull : buffer.isFull
    · rw [if_pos hfull, OutputBuffer.isFull_iff.1 hfull]
      exact ⟨[], none, .full, by simp [outcome, Except.map], by simp [record]⟩
    · have hroom : 0 < buffer.room := by
        rw [OutputBuffer.isFull_iff] at hfull
        omega
      rw [if_neg hfull]
      obtain ⟨result, t, hresult⟩ :
          ∃ result t, s.emit source f.definition buffer.room = (result, t) := ⟨_, _, rfl⟩
      obtain ⟨mid, draws, hstart, rfl⟩ := emit_eq_iff.1 hresult
      rw [hresult]
      cases result with
      | error e => exact ⟨[], some ⟨e, draws⟩, .breaks hroom hstart, rfl, by simp⟩
      | ok chunk =>
        dsimp only
        by_cases hfits : chunk.length ≤ buffer.room
        · rw [OutputBuffer.write_of_le hfits]
          dsimp only
          rw [if_pos rfl]
          generalize hnext : record _ _ = next
          have hstate : next.state = mid := hnext ▸ rfl
          have hbefore : next.draws = s.draws ++ draws := hnext ▸ rfl
          obtain ⟨vs, b, hvs, hcontent, hdraws⟩ := ih (buffer.append chunk) next
          rw [OutputBuffer.room_append, hstate] at hvs
          rw [OutputBuffer.room_append] at hcontent
          refine ⟨_, b, .visit hroom hstart hvs, ?_, ?_⟩
          · rw [hcontent, OutputBuffer.content_append, List.append_assoc, List.flatMap_cons,
              List.take_append]
          · rw [hdraws, hbefore, List.flatMap_cons, List.append_assoc, List.append_assoc]
        · have hrest : Visits source fs (buffer.room - chunk.length) mid [] none mid := by
            rw [Nat.sub_eq_zero_of_le (by omega)]
            exact .full
          rw [OutputBuffer.write_of_not_le hfits]
          -- The field does not fit, so it is the last one.
          refine ⟨_, none, .visit hroom hstart hrest, ?_, ?_⟩
          · simp [outcome, Except.map]
          · simp [record]

end Session

/-! ## The rule of a field -/

/-- A length lowered to the room. -/
def lowered (n : Int) (room : Nat) : Int :=
  min n room

/-- A length that the bounds give when there is room for so many bytes, and what is drawn for it. -/
inductive LengthBounds.Gives (b : LengthBounds) (room : Nat) : Int → List Draw → Prop
  /-- Lowered to the room, the bounds meet. -/
  | fixed (h : lowered b.min room = lowered b.max room) : Gives b room (lowered b.min room) []
  /-- A number between the lowered bounds. -/
  | drawn {n : Int} (h : lowered b.min room < lowered b.max room)
      (hlower : lowered b.min room ≤ n) (hupper : n ≤ lowered b.max room) :
      Gives b room n [.between (lowered b.min room) (lowered b.max room)]

namespace FieldDefinition

/-- Bytes that a field of the definition emits when there is room for so many, before they are cut,
and what is drawn for them. -/
inductive Produces (room : Nat) : FieldDefinition → List UInt8 → List Draw → Prop
  /-- The constant text. -/
  | constant {text : Text} {data : List UInt8} (hdata : Text.utf8 text = .ok data) :
      Produces room (constant text) data []
  /-- The numeral of a number of the range. -/
  | textNumber {range : NumberRange} {display : Option DisplayBase} {n : Int} {data : List UInt8}
      (hmin : range.min ≤ n) (hmax : n ≤ range.max) (hdata : numeralBytes n display = .ok data) :
      Produces room (textNumber range display) data [.between range.min range.max]
  /-- The bytes of a number of the range. -/
  | byteNumber {range : NumberRange} {order : ByteOrder} {n : Int} {data : List UInt8}
      (hmin : range.min ≤ n) (hmax : n ≤ range.max)
      (hdata : range.format.encode order n = .ok data) :
      Produces room (byteNumber range order) data [.between range.min range.max]
  /-- As many letters and digits as the bounds give. -/
  | text {bounds : LengthBounds} {n : Int} {draws : List Draw} {cs : List Char}
      (hn : bounds.Gives room n draws) (hlength : cs.length = n.toNat)
      (hcs : ∀ c ∈ cs, c ∈ alphanumeric) :
      Produces room (text bounds) (Text.utf8Chars cs)
        (draws ++ [.picks alphanumeric.length n])
  /-- As many bytes as the bounds give. -/
  | bytes {bounds : LengthBounds} {n : Int} {draws : List Draw} {data : List UInt8}
      (hn : bounds.Gives room n draws) (hlength : data.length = n.toNat) :
      Produces room (bytes bounds) data (draws ++ [.bytes n])

/-- What a field of the definition may ask of a source when there is room for so many bytes. Lengths
lie between zero and the room, and numbers in the format. -/
def Allows (d : FieldDefinition) (room : Nat) (draw : Draw) : Prop :=
  match d, draw with
  | textNumber range _, .between a b | byteNumber range _, .between a b =>
    range.format.minimum ≤ a ∧ a ≤ b ∧ b ≤ range.format.maximum
  | text _, .between a b | bytes _, .between a b => 0 ≤ a ∧ a ≤ b ∧ b ≤ room
  | text _, .picks population n => 0 < population ∧ 0 ≤ n ∧ n ≤ room
  | bytes _, .bytes n => 0 ≤ n ∧ n ≤ room
  | _, _ => False

end FieldDefinition

/-- There are characters to choose from. -/
theorem alphanumeric_ne_nil : alphanumeric ≠ [] := by
  decide +kernel

/-- A number of the format has its bytes. -/
theorem NumberFormat.encode_isOk {f : NumberFormat} {n : Int} (order : ByteOrder)
    (hmin : f.minimum ≤ n) (hmax : n ≤ f.maximum) : ∃ data, f.encode order n = .ok data := by
  have hsign : ¬ (!f.signed ∧ n < 0) := by
    rintro ⟨hunsigned, hneg⟩
    have hzero : f.minimum = 0 := by
      simp only [Bool.not_eq_true'] at hunsigned
      simp [minimum, hunsigned]
    omega
  unfold encode
  rw [if_neg hsign, if_neg (by omega)]
  exact ⟨_, rfl⟩

/-! ## The answers of the source -/

/-- The length that a source gives at a state when there is room for so many bytes: what `Gives`
says of it, and the answer that it is. -/
inductive LengthBounds.Answers (source : RandomSource σ) (b : LengthBounds) (room : Nat)
    (state : σ) : Int → List Draw → σ → Prop
  /-- Lowered to the room, the bounds meet. -/
  | fixed (h : lowered b.min room = lowered b.max room) :
    Answers source b room state (lowered b.min room) [] state
  /-- The number that the source answers between the lowered bounds. -/
  | drawn {n : Int} {next : σ} (h : lowered b.min room < lowered b.max room)
    (hanswer : source.between (lowered b.min room) (lowered b.max room) state = (n, next))
    (hlower : lowered b.min room ≤ n) (hupper : n ≤ lowered b.max room) :
    Answers source b room state n [.between (lowered b.min room) (lowered b.max room)] next

/-- The bytes that a field of the definition emits from a source at a state: what `Produces` says of
them, and the answers that they are made of. -/
inductive FieldDefinition.Emits (source : RandomSource σ) (room : Nat) :
    FieldDefinition → σ → List UInt8 → List Draw → σ → Prop
  /-- The constant text. -/
  | constant {text : Text} {state : σ} {data : List UInt8} (hdata : Text.utf8 text = .ok data) :
    Emits source room (constant text) state data [] state
  /-- The numeral of the number that the source answers. -/
  | textNumber {range : NumberRange} {display : Option DisplayBase} {state next : σ} {n : Int}
    {data : List UInt8} (hanswer : source.between range.min range.max state = (n, next))
    (hmin : range.min ≤ n) (hmax : n ≤ range.max) (hdata : numeralBytes n display = .ok data) :
    Emits source room (textNumber range display) state data [.between range.min range.max] next
  /-- The bytes of the number that the source answers. -/
  | byteNumber {range : NumberRange} {order : ByteOrder} {state next : σ} {n : Int}
    {data : List UInt8} (hanswer : source.between range.min range.max state = (n, next))
    (hmin : range.min ≤ n) (hmax : n ≤ range.max) (hdata : range.format.encode order n = .ok data) :
    Emits source room (byteNumber range order) state data [.between range.min range.max] next
  /-- The letters and digits that the source picks, as many as the length. -/
  | text {bounds : LengthBounds} {state mid next : σ} {n : Int} {draws : List Draw}
    {cs : List Char} (hn : bounds.Answers source room state n draws mid)
    (hanswer : source.picks alphanumeric n mid = (cs, next)) (hlength : cs.length = n.toNat)
    (hcs : ∀ c ∈ cs, c ∈ alphanumeric) :
    Emits source room (text bounds) state (Text.utf8Chars cs)
      (draws ++ [.picks alphanumeric.length n]) next
  /-- The bytes that the source answers, as many as the length. -/
  | bytes {bounds : LengthBounds} {state mid next : σ} {n : Int} {draws : List Draw}
    {data : List UInt8} (hn : bounds.Answers source room state n draws mid)
    (hanswer : source.bytes n mid = (data, next)) (hlength : data.length = n.toNat) :
    Emits source room (bytes bounds) state data (draws ++ [.bytes n]) next

/-- A field of the definition cannot be written from a source at a state: a constant that has no
bytes, or a number that is too long for its base. -/
inductive FieldDefinition.Breaks (source : RandomSource σ) :
    FieldDefinition → σ → Text.Unwritable → List Draw → σ → Prop
  /-- The constant text has no bytes. -/
  | constant {text : Text} {state : σ} {e : Text.Unwritable} (htext : Text.utf8 text = .error e) :
    Breaks source (constant text) state e [] state
  /-- The number that the source answers has too many digits. -/
  | textNumber {range : NumberRange} {display : Option DisplayBase} {state next : σ} {n : Int}
    (hanswer : source.between range.min range.max state = (n, next)) (hmin : range.min ≤ n)
    (hmax : n ≤ range.max) (hlong : Unrendered n display) :
    Breaks source (textNumber range display) state .tooManyDigits [.between range.min range.max]
      next

/-- An answer to a length is one that the bounds give. -/
theorem LengthBounds.Answers.gives {b : LengthBounds} {room : Nat} {state next : σ} {n : Int}
    {draws : List Draw} (h : b.Answers source room state n draws next) : b.Gives room n draws := by
  cases h with
  | fixed heq => exact .fixed heq
  | drawn hlt _ hlower hupper => exact .drawn hlt hlower hupper

/-- What is emitted is produced. -/
theorem FieldDefinition.Emits.produces {d : FieldDefinition} {room : Nat} {state next : σ}
    {chunk : List UInt8} {draws : List Draw} (h : d.Emits source room state chunk draws next) :
    d.Produces room chunk draws := by
  cases h with
  | constant hdata => exact .constant hdata
  | textNumber _ hmin hmax hdata => exact .textNumber hmin hmax hdata
  | byteNumber _ hmin hmax hdata => exact .byteNumber hmin hmax hdata
  | text hn _ hlength hcs => exact .text hn.gives hlength hcs
  | bytes hn _ hlength => exact .bytes hn.gives hlength

/-- A lawful source is asked for a length between the lowered bounds if they differ. -/
theorem Session.length_answers (hsource : source.Lawful) {b : LengthBounds} (hb : b.Sound)
    (room : Nat) (state : σ) :
    ∃ n draws mid, (start state).length source b room = (n, { state := mid, draws }) ∧
      b.Answers source room state n draws mid := by
  unfold length
  dsimp only
  split
  · next heq => exact ⟨_, _, _, rfl, .fixed heq⟩
  · next hne =>
    have hlt : lowered b.min room < lowered b.max room := by
      have hle := hb.min_le_max
      unfold lowered
      omega
    obtain ⟨hlower, hupper⟩ := hsource.between_mem _ _ state (Int.le_of_lt hlt)
    exact ⟨_, _, _, rfl, .drawn hlt rfl hlower hupper⟩

/-- Letters and digits are characters of ASCII. -/
theorem encode_alphanumeric {cs : List Char} (h : ∀ c ∈ cs, c ∈ alphanumeric) :
    Text.encode .ascii (cs.map .scalar) = .ok (Text.utf8Chars cs) := by
  have hall : alphanumeric.all fun c => c.toNat < 0x80 := by decide +kernel
  refine Text.encode_eq_ok_iff.2 ⟨?_, by rw [Text.filterMap_scalar?_map]⟩
  rw [List.forall_mem_map]
  exact fun c hc => List.all_eq_true.1 hall c (h c hc)

/-- An ordered definition emits by its rule whatever a lawful source answers, or it cannot be
written. -/
theorem Session.emit_cases (hsource : source.Lawful) {d : FieldDefinition} (hd : d.Ordered)
    (room : Nat) (state : σ) :
    (∃ chunk draws mid, (start state).emit source d room = (.ok chunk, { state := mid, draws }) ∧
      d.Emits source room state chunk draws mid) ∨
    ∃ e draws mid, (start state).emit source d room =
        (.error (.unwritable e), { state := mid, draws }) ∧
      d.Breaks source state e draws mid := by
  cases d with
  | constant text =>
    cases htext : Text.utf8 text with
    | ok data => exact .inl ⟨data, [], state, by simp [emit, htext, Except.mapError, start],
        .constant htext⟩
    | error e => exact .inr ⟨e, [], state, by simp [emit, htext, Except.mapError, start],
        .constant htext⟩
  | textNumber range display =>
    obtain ⟨hmin, hmax⟩ := hsource.between_mem _ _ state hd
    obtain ⟨hlong, hbytes⟩ | ⟨-, hbytes⟩ :=
      numeralBytes_cases (source.between range.min range.max state).1 display
    · refine .inr ⟨_, _, (source.between range.min range.max state).2, ?_,
        .textNumber rfl hmin hmax hlong⟩
      simp [emit, between, start, hbytes, Except.mapError]
    · refine .inl ⟨_, _, (source.between range.min range.max state).2, ?_,
        .textNumber rfl hmin hmax hbytes⟩
      simp [emit, between, start, hbytes, Except.mapError]
  | byteNumber range order =>
    obtain ⟨hmin, hmax⟩ := hsource.between_mem _ _ state hd.min_le_max
    obtain ⟨data, hdata⟩ := NumberFormat.encode_isOk order
      (Int.le_trans hd.minimum_le hmin) (Int.le_trans hmax hd.le_maximum)
    refine .inl ⟨data, _, (source.between range.min range.max state).2, ?_,
      .byteNumber rfl hmin hmax hdata⟩
    unfold emit between
    dsimp only [start]
    rw [hdata]
    rfl
  | text bounds =>
    obtain ⟨n, draws, mid, hlength, hn⟩ := length_answers hsource hd room state
    unfold emit
    dsimp only
    rw [hlength]
    have hpicks := hsource.mem_picks alphanumeric n mid
    refine .inl ⟨_, _, (source.picks alphanumeric n mid).2, ?_, .text hn rfl ?_ hpicks⟩
    · simp [picks, encode_alphanumeric hpicks, Except.mapError]
    · exact hsource.length_picks _ _ _ alphanumeric_ne_nil
  | bytes bounds =>
    obtain ⟨n, draws, mid, hlength, hn⟩ := length_answers hsource hd room state
    unfold emit
    dsimp only
    rw [hlength]
    exact .inl ⟨_, _, _, rfl, .bytes hn rfl (hsource.length_bytes _ _)⟩

/-- What an ordered definition emits follows its rule. -/
theorem Session.emits_of_emit (hsource : source.Lawful) {d : FieldDefinition} (hd : d.Ordered)
    {room : Nat} {state mid : σ} {chunk : List UInt8} {draws : List Draw}
    (h : (start state).emit source d room = (.ok chunk, { state := mid, draws })) :
    d.Emits source room state chunk draws mid := by
  obtain ⟨chunk', draws', mid', hemit, hrule⟩ | ⟨e, draws', mid', hemit, -⟩ :=
    emit_cases hsource hd room state
  · rw [h] at hemit
    cases hemit
    exact hrule
  · rw [h] at hemit
    cases hemit

/-- What an ordered definition fails for is that it cannot be written. -/
theorem Session.breaks_of_emit (hsource : source.Lawful) {d : FieldDefinition} (hd : d.Ordered)
    {room : Nat} {state mid : σ} {error : EmissionError} {draws : List Draw}
    (h : (start state).emit source d room = (.error error, { state := mid, draws })) :
    ∃ e, error = .unwritable e ∧ d.Breaks source state e draws mid := by
  obtain ⟨chunk', draws', mid', hemit, -⟩ | ⟨e, draws', mid', hemit, hbreaks⟩ :=
    emit_cases hsource hd room state
  · rw [h] at hemit
    cases hemit
  · rw [h] at hemit
    cases hemit
    exact ⟨e, rfl, hbreaks⟩

/-! ## Sound definitions -/

/-- A length that is given fits the room. -/
theorem LengthBounds.Gives.within_room {b : LengthBounds} {room : Nat} {n : Int}
    {draws : List Draw} (hb : b.Sound) (h : b.Gives room n draws) : 0 ≤ n ∧ n ≤ room := by
  have hnonneg := hb.nonneg
  have hle := hb.min_le_max
  cases h with
  | fixed heq =>
    unfold lowered
    omega
  | drawn hlt hlower hupper =>
    unfold lowered at hlower hupper
    omega

/-- A draw for a length is between bounds within the room. -/
theorem LengthBounds.Gives.draw_eq {b : LengthBounds} {room : Nat} {n : Int} {draws : List Draw}
    {draw : Draw} (hb : b.Sound) (h : b.Gives room n draws) (hdraw : draw ∈ draws) :
    ∃ lower upper : Int, draw = .between lower upper ∧
      0 ≤ lower ∧ lower ≤ upper ∧ upper ≤ room := by
  have hnonneg := hb.nonneg
  have hle := hb.min_le_max
  cases h with
  | fixed heq => cases hdraw
  | drawn hlt hlower hupper =>
    obtain rfl := List.mem_singleton.1 hdraw
    refine ⟨_, _, rfl, ?_⟩
    unfold lowered at hlt ⊢
    omega

/-- By its rule a field of a sound definition asks for nothing else than what is allowed. -/
theorem FieldDefinition.Produces.allows {d : FieldDefinition} {room : Nat} {chunk : List UInt8}
    {draws : List Draw} {draw : Draw} (hd : d.Sound) (h : d.Produces room chunk draws)
    (hdraw : draw ∈ draws) : d.Allows room draw := by
  cases h with
  | constant => cases hdraw
  | textNumber hmin hmax hdata =>
    obtain rfl := List.mem_singleton.1 hdraw
    exact ⟨hd.minimum_le, hd.min_le_max, hd.le_maximum⟩
  | byteNumber hmin hmax hdata =>
    obtain rfl := List.mem_singleton.1 hdraw
    exact ⟨hd.minimum_le, hd.min_le_max, hd.le_maximum⟩
  | text hn hlength hcs =>
    rcases List.mem_append.1 hdraw with hdraw | hdraw
    · obtain ⟨lower, upper, rfl, hbounds⟩ := hn.draw_eq hd hdraw
      exact hbounds
    · obtain rfl := List.mem_singleton.1 hdraw
      exact ⟨List.length_pos_iff.2 alphanumeric_ne_nil, hn.within_room hd⟩
  | bytes hn hlength =>
    rcases List.mem_append.1 hdraw with hdraw | hdraw
    · obtain ⟨lower, upper, rfl, hbounds⟩ := hn.draw_eq hd hdraw
      exact hbounds
    · obtain rfl := List.mem_singleton.1 hdraw
      exact hn.within_room hd

/-- A sound definition breaks a run only as a constant without bytes. -/
theorem FieldDefinition.Breaks.exists_constant {d : FieldDefinition} {state last : σ}
    {e : Text.Unwritable} {draws : List Draw} (hd : d.Sound)
    (h : d.Breaks source state e draws last) :
    ∃ text, d = .constant text ∧ Text.utf8 text = .error e ∧ draws = [] ∧ last = state := by
  cases h with
  | constant htext => exact ⟨_, rfl, htext, rfl, rfl⟩
  | @textNumber range display _ _ n _ hmin hmax hlong =>
    have hrange : range.Sound := hd
    exact absurd hlong (range.format.not_unrendered
      (Int.le_trans hrange.minimum_le hmin) (Int.le_trans hmax hrange.le_maximum))

/-- A visit keeps to the rule of its field. -/
theorem Visits.produces (hsource : source.Lawful) {fs : List Field} {room : Nat} {state last : σ}
    {vs : List Visit} {b : Option Break} (hfs : ∀ f ∈ fs, f.definition.Ordered)
    (h : Visits source fs room state vs b last) :
    ∀ v ∈ vs, v.field ∈ fs ∧ v.field.definition.Produces v.room v.chunk v.draws := by
  induction h with
  | done | full | breaks =>
    intro v hv
    cases hv
  | @visit f fs room state mid last chunk draws vs b hroom hemit hrest ih =>
    intro v hv
    rcases List.mem_cons.1 hv with rfl | hv
    · have hrule := Session.emits_of_emit hsource (hfs f List.mem_cons_self) hemit
      exact ⟨List.mem_cons_self, hrule.produces⟩
    · obtain ⟨hmem, hrule⟩ := ih (fun f hf => hfs f (List.mem_cons_of_mem _ hf)) v hv
      exact ⟨List.mem_cons_of_mem _ hmem, hrule⟩

/-! ## Visits in turn -/

/-- Between two states of the source the fields of some visits emit one after the other. -/
inductive EmitsInTurn (source : RandomSource σ) : σ → List Visit → σ → Prop
  /-- There is no visit. -/
  | done {state : σ} : EmitsInTurn source state [] state
  /-- The first field emits, and the others from the state that it leaves. -/
  | next {state mid last : σ} {v : Visit} {vs : List Visit}
    (hemits : v.field.definition.Emits source v.room state v.chunk v.draws mid)
    (hrest : EmitsInTurn source mid vs last) : EmitsInTurn source state (v :: vs) last

/-- The fields of a run emit in turn. If it breaks, the field after them cannot be written, although
there is room for it. -/
theorem Visits.emitsInTurn (hsource : source.Lawful) {fs : List Field} {room : Nat}
    {state last : σ} {vs : List Visit} {b : Option Break}
    (hfs : ∀ f ∈ fs, f.definition.Ordered) (h : Visits source fs room state vs b last) :
    ∃ mid, EmitsInTurn source state vs mid ∧ (b = none → mid = last) ∧
      ∀ k, b = some k → ∃ f e, fs[vs.length]? = some f ∧ emitted vs < room ∧
        k.error = .unwritable e ∧ f.definition.Breaks source mid e k.draws last := by
  induction h with
  | done => exact ⟨_, .done, fun _ => rfl, nofun⟩
  | full => exact ⟨_, .done, fun _ => rfl, nofun⟩
  | @breaks f fs room state last error draws hroom hemit =>
    obtain ⟨e, rfl, hbreaks⟩ :=
      Session.breaks_of_emit hsource (hfs f List.mem_cons_self) hemit
    refine ⟨state, .done, nofun, ?_⟩
    rintro k ⟨⟩
    exact ⟨f, e, rfl, hroom, rfl, hbreaks⟩
  | @visit f fs room state next last chunk draws vs b hroom hemit hrest ih =>
    have hrule := Session.emits_of_emit hsource (hfs f List.mem_cons_self) hemit
    obtain ⟨mid, hturn, hnone, hbreak⟩ := ih fun f hf => hfs f (List.mem_cons_of_mem _ hf)
    refine ⟨mid, .next hrule hturn, hnone, fun k hk => ?_⟩
    obtain ⟨f', e, hf', hless, herror, hbreaks⟩ := hbreak k hk
    refine ⟨f', e, hf', ?_, herror, hbreaks⟩
    rw [emitted_cons]
    dsimp only
    omega

end ByteLayout
