import ByteLayout.Proofs.EmissionLaw

/-!
# Room for the terminator

The fields of a message know nothing of its ending but the room that it leaves. Two generators of a
group that leave the same room therefore make the same of it, whatever their endings, and whether or
not one of them warns of its bounds (`generate_alike`). `Session.Alike` is what records leave of a
session, so that a warning may be passed over.

`generate_reserves`: a message with its terminator is a message without one, with the greatest
length lowered by what is appended, and the terminator behind it. A message without a terminator
takes no notice of it.
-/

namespace ByteLayout

variable {σ : Type} {source : RandomSource σ}

/-! ## Sessions apart from their records -/

/-- The sessions differ in their records at most. -/
structure Session.Alike (s t : Session σ) : Prop where
  /-- The source is in the same state. -/
  state : s.state = t.state
  /-- The same was asked of it. -/
  draws : s.draws = t.draws

namespace Session.Alike

variable {s t u : Session σ}

theorem refl (s : Session σ) : s.Alike s :=
  ⟨rfl, rfl⟩

theorem symm (h : s.Alike t) : t.Alike s :=
  ⟨h.state.symm, h.draws.symm⟩

theorem trans (h : s.Alike t) (h' : t.Alike u) : s.Alike u :=
  ⟨h.state.trans h'.state, h.draws.trans h'.draws⟩

/-- A record in both leaves sessions alike. -/
theorem record (h : s.Alike t) (e : LogEvent) : (s.record e).Alike (t.record e) :=
  ⟨h.state, h.draws⟩

/-- A field emits the same whatever the records are. -/
theorem emit (h : s.Alike t) (source : RandomSource σ) (d : FieldDefinition) (room : Nat) :
    (s.emit source d room).1 = (t.emit source d room).1 ∧
      (s.emit source d room).2.Alike (t.emit source d room).2 := by
  rw [emit_eq source d room s, emit_eq source d room t, h.state, h.draws]
  exact ⟨rfl, rfl, rfl⟩

/-- A run over fields is the same whatever the records are. -/
theorem emitFields (h : s.Alike t) (source : RandomSource σ) (group : Text) (fs : List Field)
    (buffer : OutputBuffer) :
    (s.emitFields source group fs buffer).1 = (t.emitFields source group fs buffer).1 ∧
      (s.emitFields source group fs buffer).2.Alike
        (t.emitFields source group fs buffer).2 := by
  induction fs generalizing buffer s t with
  | nil => exact ⟨rfl, h⟩
  | cons f fs ih =>
    unfold Session.emitFields
    by_cases hfull : buffer.isFull
    · rw [if_pos hfull, if_pos hfull]
      exact ⟨rfl, h.record _⟩
    · rw [if_neg hfull, if_neg hfull]
      obtain ⟨hresult, hafter⟩ := h.emit source f.definition buffer.room
      generalize s.emit source f.definition buffer.room = emitted at hresult hafter ⊢
      generalize t.emit source f.definition buffer.room = emitted' at hresult hafter ⊢
      obtain ⟨result, s'⟩ := emitted
      obtain ⟨result', t'⟩ := emitted'
      obtain rfl : result = result' := hresult
      cases result with
      | error e => exact ⟨rfl, hafter⟩
      | ok data =>
        dsimp only
        split
        · exact ih (hafter.record _) _
        · exact ⟨rfl, hafter.record _⟩

end Session.Alike

/-! ## The fields of a message -/

/-- What the fields of a group make of a capacity. -/
def contentWithin (source : RandomSource σ) (group : Group) (capacity : Int) (s : Session σ) :
    Except GenerationError (List UInt8) × Session σ :=
  match OutputBuffer.ofCapacity capacity with
  | .error e => (.error (.capacity e), s)
  | .ok buffer =>
    match s.emitFields source group.name group.fields buffer with
    | (.error e, s) => (.error (.emission e), s)
    | (.ok buffer, s) => (.ok buffer.content, s)

/-- Sessions that are alike emit the same content and stay alike. -/
theorem contentWithin_alike (source : RandomSource σ) {s t : Session σ} (h : s.Alike t)
    (group : Group) (capacity : Int) :
    (contentWithin source group capacity s).1 = (contentWithin source group capacity t).1 ∧
      (contentWithin source group capacity s).2.Alike
        (contentWithin source group capacity t).2 := by
  unfold contentWithin
  cases OutputBuffer.ofCapacity capacity with
  | error e => exact ⟨rfl, h⟩
  | ok buffer =>
    dsimp only
    obtain ⟨hresult, hafter⟩ := h.emitFields source group.name group.fields buffer
    generalize s.emitFields source group.name group.fields buffer = ran at hresult hafter ⊢
    generalize t.emitFields source group.name group.fields buffer = ran' at hresult hafter ⊢
    obtain ⟨result, s'⟩ := ran
    obtain ⟨result', t'⟩ := ran'
    obtain rfl : result = result' := hresult
    cases result <;> exact ⟨rfl, hafter⟩

/-- The fields keep to the capacity. -/
theorem length_contentWithin {group : Group} {capacity : Int} {s : Session σ} {bytes : List UInt8}
    (h : (contentWithin source group capacity s).1 = .ok bytes) :
    (bytes.length : Int) ≤ capacity := by
  unfold contentWithin OutputBuffer.ofCapacity at h
  split at h
  · cases h
  · next buffer hbuffer =>
    split at hbuffer
    · cases hbuffer
    · next hcapacity =>
      cases hbuffer
      split at h
      · cases h
      · next after s' hrun =>
        cases h
        obtain ⟨vs, b, -, hcontent, -⟩ :=
          Session.visits_emitFields source group.name group.fields { capacity := capacity.toNat } s
        rw [hrun] at hcontent
        have hroom : OutputBuffer.room { capacity := capacity.toNat } = capacity.toNat := rfl
        cases b with
        | none =>
          rw [Except.ok.inj hcontent, hroom, List.nil_append, List.length_take]
          omega
        | some b => cases hcontent

/-- A message is what the fields make of the room that the ending leaves, and the ending. A warning
changes the records only. -/
theorem generateGroup_eq (source : RandomSource σ) (appendTerminator : Bool) (g : Generator)
    (group : Group) (s : Session σ) : ∃ t, s.Alike t ∧
      let content := contentWithin source group (g.outMax - (g.ending appendTerminator).length) t
      generateGroup source appendTerminator g group s =
        (content.1.map (· ++ g.ending appendTerminator), content.2) := by
  refine ⟨if g.outMax < g.outMin then s.record (.boundsCrossed g) else s, ?_, ?_⟩
  · split
    · exact ⟨rfl, rfl⟩
    · exact .refl s
  · unfold generateGroup contentWithin
    dsimp only
    generalize (if g.outMax < g.outMin then s.record (.boundsCrossed g) else s) = t
    cases OutputBuffer.ofCapacity (g.outMax - (g.ending appendTerminator).length) with
    | error e => rfl
    | ok buffer =>
      dsimp only
      generalize t.emitFields source group.name group.fields buffer = ran
      obtain ⟨result, t'⟩ := ran
      cases result <;> rfl

/-! ## Messages of two generators -/

variable {g g' : Generator} {env : Environment} {appendTerminator appendTerminator' : Bool}

/-- The environment with another generator. -/
def Environment.withGenerator (env : Environment) (g : Generator) : Environment :=
  { env with generator := some g }

/-- Of two generators of a group that leave the same room, the fields make the same. -/
theorem generateGroup_alike {group : Group} (hroom : g'.outMax -
      (g'.ending appendTerminator').length = g.outMax - (g.ending appendTerminator).length)
    (source : RandomSource σ) (s : Session σ) : ∃ content : Except GenerationError (List UInt8),
      (generateGroup source appendTerminator g group s).1 =
        content.map (· ++ g.ending appendTerminator) ∧
      (generateGroup source appendTerminator' g' group s).1 =
        content.map (· ++ g'.ending appendTerminator') ∧
      (generateGroup source appendTerminator g group s).2.Alike
        (generateGroup source appendTerminator' g' group s).2 ∧
      ∀ bytes, content = .ok bytes →
        (bytes.length : Int) ≤ g.outMax - (g.ending appendTerminator).length := by
  obtain ⟨t, ht, hgenerate⟩ := generateGroup_eq source appendTerminator g group s
  obtain ⟨t', ht', hgenerate'⟩ := generateGroup_eq source appendTerminator' g' group s
  obtain ⟨hcontent, hafter⟩ := contentWithin_alike source (ht.symm.trans ht') group
    (g.outMax - (g.ending appendTerminator).length)
  rw [hgenerate, hgenerate', hroom]
  refine ⟨_, rfl, ?_, hafter, fun bytes hbytes => length_contentWithin hbytes⟩
  dsimp only
  rw [hcontent]

/-- Of two generators that name the same group and leave the same room, the fields make the same,
or there is no such group for either. -/
theorem generate_alike (appendTerminator appendTerminator' : Bool) (g' : Generator)
    (hgenerator : env.generator = some g) (hname : g'.group = g.group)
    (hroom : g'.outMax - (g'.ending appendTerminator').length =
      g.outMax - (g.ending appendTerminator).length)
    (source : RandomSource σ) (s : Session σ) : ∃ content : Except GenerationError (List UInt8),
      (generate source appendTerminator env s).1 =
        content.map (· ++ g.ending appendTerminator) ∧
      (generate source appendTerminator' (env.withGenerator g') s).1 =
        content.map (· ++ g'.ending appendTerminator') ∧
      (generate source appendTerminator env s).2.Alike
        (generate source appendTerminator' (env.withGenerator g') s).2 ∧
      ∀ bytes, content = .ok bytes →
        (bytes.length : Int) ≤ g.outMax - (g.ending appendTerminator).length := by
  have hgenerator' : (env.withGenerator g').generator = some g' := rfl
  cases hgroup : env.group? g.group with
  | none =>
    have hgroup' : (env.withGenerator g').group? g'.group = none := by
      rw [hname]
      exact hgroup
    unfold generate
    rw [Environment.target_of_none hgenerator hgroup,
      Environment.target_of_none hgenerator' hgroup', hname]
    exact ⟨.error (.problem (.groupMissing g.group)), rfl, rfl, .refl s, nofun⟩
  | some group =>
    have hgroup' : (env.withGenerator g').group? g'.group = some group := by
      rw [hname]
      exact hgroup
    rw [generate_of_some source hgenerator hgroup, generate_of_some source hgenerator' hgroup']
    exact generateGroup_alike hroom source s

/-! ## The terminator -/

/-- The first bytes of the terminator, as many as a message may have. -/
def Generator.trailer (g : Generator) : List UInt8 :=
  g.terminator.take g.outMax.toNat

/-- The ending is the trailer if there is one. -/
theorem Generator.ending_true (hmax : 0 ≤ g.outMax) : g.ending true = g.trailer :=
  Generator.ending_eq hmax true

/-- The generator without the room for its trailer. -/
def Generator.lowered (g : Generator) : Generator :=
  { g with outMax := g.outMax - g.trailer.length }

/-- A message with its terminator is the one without, from a greatest length that is lowered by what
is appended, and the first bytes of the terminator behind it. Either both fail, with the same error,
or none, and the source is asked for the same and left in the same state. The message keeps to the
greatest length. Without the terminator it is the same whatever the terminator is. -/
theorem generate_reserves (hgenerator : env.generator = some g) (hmax : 0 ≤ g.outMax)
    (source : RandomSource σ) (s : Session σ) :
    ((generate source true env s).1 =
        (generate source false (env.withGenerator g.lowered) s).1.map (· ++ g.trailer) ∧
      (∀ e, (generate source true env s).1 = .error e ↔
        (generate source false (env.withGenerator g.lowered) s).1 = .error e) ∧
      (generate source true env s).2.Alike
        (generate source false (env.withGenerator g.lowered) s).2) ∧
    (∀ message, (generate source true env s).1 = .ok message →
      (message.length : Int) ≤ g.outMax ∧ g.trailer <:+ message) ∧
    ∀ terminator,
      (generate source false (env.withGenerator { g with terminator }) s).1 =
        (generate source false env s).1 ∧
      (generate source false (env.withGenerator { g with terminator }) s).2.Alike
        (generate source false env s).2 := by
  have hending := g.ending_true hmax
  have hnone (g' : Generator) : g'.ending false = [] := rfl
  have hmap (result : Except GenerationError (List UInt8)) : result.map (· ++ []) = result := by
    cases result <;> simp [Except.map]
  refine ⟨?_, ?_, fun terminator => ?_⟩
  · obtain ⟨content, hwhole, hpart, halike, -⟩ := generate_alike true false g.lowered hgenerator rfl
      (by rw [hending, hnone]; simp [Generator.lowered]) source s
    rw [hending] at hwhole
    rw [hnone, hmap] at hpart
    rw [hwhole, hpart]
    exact ⟨rfl, fun e => Except.map_eq_error, halike⟩
  · obtain ⟨content, hwhole, -, -, hlength⟩ :=
      generate_alike true true g hgenerator rfl rfl source s
    intro message hmessage
    rw [hwhole, hending] at hmessage
    obtain ⟨bytes, hbytes, rfl⟩ := Except.map_eq_ok.1 hmessage
    have hle := hlength bytes hbytes
    rw [hending] at hle
    refine ⟨?_, List.suffix_append _ _⟩
    rw [List.length_append]
    omega
  · obtain ⟨content, hplain, hother, halike, -⟩ := generate_alike false false { g with terminator }
      hgenerator rfl rfl source s
    rw [hnone] at hplain hother
    exact ⟨hother.trans hplain.symm, halike.symm⟩

/-- A generator that warns of its bounds once room is reserved, but not before. -/
def lineGenerator : Generator :=
  ⟨"line", 5, 7, [0x0D, 0x0A, 0x00]⟩

/-- The environment of a group that is cut, with this generator. -/
def lineEnvironment : Environment where
  groups := [("line", ⟨"line", [⟨.byteNumber ⟨⟨false, .two⟩, 0, 65535⟩ .little, some "size"⟩,
    ⟨.text {}, none⟩, ⟨.bytes {}, none⟩]⟩)]
  generator := some lineGenerator

/-- The line of `lineEnvironment` is that of the lowered generator and its trailer. -/
theorem lineEnvironment_reserves :
    (lineEnvironment.generator = some lineGenerator ∧ 0 ≤ lineGenerator.outMax) ∧
      (generate Script.source false (lineEnvironment.withGenerator lineGenerator.lowered)
        (.start (.cycle [258, 2, 0, 1] []))).1 = .ok [0x02, 0x01, 0x41, 0x42] ∧
      (generate Script.source true lineEnvironment (.start (.cycle [258, 2, 0, 1] []))).1 =
        .ok [0x02, 0x01, 0x41, 0x42, 0x0D, 0x0A, 0x00] := by
  have hgenerator : lineEnvironment.generator = some lineGenerator := rfl
  have hmax : 0 ≤ lineGenerator.outMax := by decide
  have hpart : (generate Script.source false (lineEnvironment.withGenerator lineGenerator.lowered)
      (.start (.cycle [258, 2, 0, 1] []))).1 = .ok [0x02, 0x01, 0x41, 0x42] := by decide +kernel
  obtain ⟨⟨hwhole, -, -⟩, -, -⟩ :=
    generate_reserves hgenerator hmax Script.source (.start (.cycle [258, 2, 0, 1] []))
  rw [hpart] at hwhole
  exact ⟨⟨hgenerator, hmax⟩, hpart, hwhole⟩

end ByteLayout
