import ByteLayout.Proofs.Generation

/-!
# Cut messages

Constants and numbers emit the same bytes whatever room is left for them, as no length is drawn for
them. Two messages of such fields from the same state of a source differ only in where they are cut:
as long as the shorter one goes on, the fields of both are visited alike, and at a field that cannot
be written both break (`Visits.cut`).

`generate_cut`: the message of a lower greatest length is the front of the longer one, and its draws
come first among those of the longer one. If a field cannot be written, the longer run may break
where the shorter one is already full.
-/

namespace ByteLayout

variable {σ : Type} {source : RandomSource σ}

/-! ## Fields -/

/-- No length is drawn for a field of the definition. -/
def FieldDefinition.LengthFree : FieldDefinition → Prop
  | constant _ | textNumber .. | byteNumber .. => True
  | text _ | bytes _ => False

/-- A field without a drawn length takes no notice of the room. -/
theorem Session.emit_room {d : FieldDefinition} (hd : d.LengthFree) (room room' : Nat)
    (s : Session σ) : s.emit source d room = s.emit source d room' := by
  cases d with
  | constant | textNumber | byteNumber => rfl
  | text | bytes => cases hd

/-- Every number of the range and every character of the constant can be written. -/
def FieldDefinition.Writable : FieldDefinition → Prop
  | constant s => ∃ data, Text.utf8 s = .ok data
  | textNumber range display => ∀ n, range.min ≤ n → n ≤ range.max → ¬ Unrendered n display
  | text _ | byteNumber .. | bytes _ => True

/-- A field that can be written does not break a run. -/
theorem FieldDefinition.Breaks.not_writable {d : FieldDefinition} {state last : σ}
    {e : Text.Unwritable} {draws : List Draw} (h : d.Breaks source state e draws last) :
    ¬ d.Writable := by
  cases h with
  | constant htext =>
    rintro ⟨data, hdata⟩
    cases htext.symm.trans hdata
  | textNumber _ hmin hmax hlong => exact fun h => h _ hmin hmax hlong

/-- What visits with less room have of others from the same state, of which they are the first. -/
structure CutOf (room : Nat) (vs vs' : List Visit) (b b' : Option Break) : Prop where
  /-- The same is emitted, up to the cut. -/
  chunks : (vs.flatMap Visit.chunk).take room = (vs'.flatMap Visit.chunk).take room
  /-- Their draws come first. -/
  draws : vs.flatMap Visit.draws ++ b.toList.flatMap Break.draws <+:
    vs'.flatMap Visit.draws ++ b'.toList.flatMap Break.draws
  /-- They do not break alone, and if the others break alone, it is because these are full. -/
  breaks : b = b' ∨ b = none ∧ room ≤ emitted vs
  /-- Where they break they draw the same. -/
  broken : b ≠ none → vs.flatMap Visit.draws = vs'.flatMap Visit.draws

/-- Visits with less room are cut earlier than others from the same state, and are the same until
then. -/
theorem Visits.cut {fs : List Field} {room room' : Nat} {state last last' : σ}
    {vs vs' : List Visit} {b b' : Option Break} (hfs : ∀ f ∈ fs, f.definition.LengthFree)
    (hroom : room ≤ room') (h : Visits source fs room state vs b last)
    (h' : Visits source fs room' state vs' b' last') : CutOf room vs vs' b b' := by
  induction h generalizing room' vs' with
  | done => cases h' <;> exact ⟨rfl, List.prefix_rfl, .inl rfl, fun _ => rfl⟩
  | full => exact ⟨rfl, List.nil_prefix, .inr ⟨rfl, Nat.zero_le _⟩, absurd rfl⟩
  | @breaks f fs room state mid error draws hpos hemit =>
    rw [List.forall_mem_cons] at hfs
    cases h' with
    | full => omega
    | breaks _ hemit' =>
      rw [Session.emit_room hfs.1 _ room, hemit] at hemit'
      cases hemit'
      exact ⟨rfl, List.prefix_rfl, .inl rfl, fun _ => rfl⟩
    | visit _ hemit' _ =>
      rw [Session.emit_room hfs.1 _ room, hemit] at hemit'
      cases hemit'
  | @visit f fs room state mid last chunk draws vs b hpos hemit hrest ih =>
    rw [List.forall_mem_cons] at hfs
    cases h' with
    | full => omega
    | breaks _ hemit' =>
      rw [Session.emit_room hfs.1 _ room, hemit] at hemit'
      cases hemit'
    | visit _ hemit' hrest' =>
      rw [Session.emit_room hfs.1 _ room, hemit] at hemit'
      cases hemit'
      -- The room that the first chunk leaves is again less in the one than in the other.
      obtain ⟨hchunks, hdraws, hbreaks, hbroken⟩ :=
        ih hfs.2 (Nat.sub_le_sub_right hroom _) hrest'
      refine ⟨?_, ?_, hbreaks.imp_right (And.imp_right fun hle => ?_), fun hb => ?_⟩
      · rw [List.flatMap_cons, List.flatMap_cons, List.take_append, List.take_append, hchunks]
      · rw [List.flatMap_cons, List.flatMap_cons, List.append_assoc, List.append_assoc]
        exact List.prefix_append_right_inj _ |>.2 hdraws
      · rw [emitted_cons]
        dsimp only
        omega
      · rw [List.flatMap_cons, List.flatMap_cons, hbroken hb]

/-! ## Messages -/

variable {g : Generator} {group : Group} {env : Environment}

/-- The environment with another greatest length of its messages. -/
def Environment.withOutMax (env : Environment) (n : Int) : Environment :=
  { env with generator := env.generator.map fun g => { g with outMax := n } }

/-- Without a terminator nothing ends a message. -/
theorem Generator.ending_eq_nil {appendTerminator : Bool}
    (h : appendTerminator = true → g.terminator = []) : g.ending appendTerminator = [] := by
  cases appendTerminator with
  | false => rfl
  | true =>
    unfold ending Sequence.before
    rw [h rfl, List.take_nil]
    rfl

/-- What a run without a terminator makes of its visits. -/
def messageOf (n : Nat) (vs : List Visit) (b : Option Break) :
    Except GenerationError (List UInt8) :=
  (outcome b ((vs.flatMap Visit.chunk).take n)).mapError .emission

/-- The message without a terminator is cut at the greatest length. -/
theorem generate_withOutMax (source : RandomSource σ) (hgenerator : env.generator = some g)
    (hgroup : env.group? g.group = some group)
    {appendTerminator : Bool} (hterminator : appendTerminator = true → g.terminator = [])
    {n : Int} (hn : 0 ≤ n) (s : Session σ) :
    ∃ vs b s', generate source appendTerminator (env.withOutMax n) s =
        (messageOf n.toNat vs b, s') ∧
      Visits source group.fields n.toNat s.state vs b s'.state ∧
      s'.draws = s.draws ++ (vs.flatMap Visit.draws ++ b.toList.flatMap Break.draws) := by
  have hg : (env.withOutMax n).generator = some { g with outMax := n } := by
    unfold Environment.withOutMax
    rw [hgenerator]
    rfl
  have hending : ({ g with outMax := n } : Generator).ending appendTerminator = [] :=
    Generator.ending_eq_nil hterminator
  have hroom : ({ g with outMax := n } : Generator).room appendTerminator = n.toNat := by
    unfold Generator.room
    rw [hending]
    exact congrArg Int.toNat (Int.sub_zero n)
  rw [generate_of_some source hg hgroup appendTerminator s]
  obtain ⟨vs, s', hmessage, hvs, hdraws⟩ | ⟨vs, b, s', hmessage, hvs, hdraws⟩ :=
    generateGroup_cases (g := { g with outMax := n }) source hn appendTerminator group s
  · rw [hending, hroom, List.append_nil] at hmessage
    rw [hroom] at hvs
    exact ⟨vs, none, s', hmessage, hvs, by simpa using hdraws⟩
  · rw [hroom] at hvs
    exact ⟨vs, some b, s', hmessage, hvs, by simpa using hdraws⟩

/-- Of fields without a drawn length, the message of a lower greatest length is the front of the
message of a higher one, and its draws come first among those of the other. There is a longer
message if all fields can be written. Otherwise its run may break, and then the shorter one breaks
in the same way and after the same draws, or has come to its greatest length before. -/
theorem generate_cut (hgenerator : env.generator = some g)
    (hgroup : env.group? g.group = some group)
    (hfree : ∀ f ∈ group.fields, f.definition.LengthFree)
    (hordered : ∀ f ∈ group.fields, f.definition.Ordered) (hsource : source.Lawful)
    {appendTerminator : Bool} (hterminator : appendTerminator = true → g.terminator = [])
    {low high : Int} (hlow : 0 ≤ low) (hle : low ≤ high) (s : Session σ) :
    ∃ draws more shorter longer,
      (shorter.draws = s.draws ++ draws ∧ longer.draws = s.draws ++ (draws ++ more)) ∧
      ((∃ message,
          generate source appendTerminator (env.withOutMax high) s = (.ok message, longer) ∧
          generate source appendTerminator (env.withOutMax low) s =
            (.ok (message.take low.toNat), shorter)) ∨
        (∃ f ∈ group.fields, ¬ f.definition.Writable) ∧ ∃ e,
          generate source appendTerminator (env.withOutMax high) s =
            (.error (.emission (.unwritable e)), longer) ∧
          (generate source appendTerminator (env.withOutMax low) s =
              (.error (.emission (.unwritable e)), shorter) ∧ more = [] ∨
            ∃ message, generate source appendTerminator (env.withOutMax low) s =
              (.ok message, shorter) ∧ (message.length : Int) = low)) := by
  have htoNat := Int.toNat_le_toNat hle
  obtain ⟨vs, b, shorter, hshorter, hvs, hdraws⟩ :=
    generate_withOutMax source hgenerator hgroup hterminator hlow s
  obtain ⟨vs', b', longer, hlonger, hvs', hdraws'⟩ :=
    generate_withOutMax source hgenerator hgroup hterminator (Int.le_trans hlow hle) s
  have hcut := hvs.cut hfree htoNat hvs'
  obtain ⟨more, hmore⟩ := hcut.draws
  refine ⟨_, more, shorter, longer, ⟨hdraws, by rw [hdraws', hmore]⟩, ?_⟩
  cases b' with
  | none =>
    obtain rfl : b = none := hcut.breaks.elim id And.left
    refine .inl ⟨_, hlonger, ?_⟩
    rw [hshorter, messageOf, outcome, hcut.chunks, List.take_take, min_eq_left htoNat]
    rfl
  | some k =>
    obtain ⟨mid, -, -, hbreak⟩ := hvs'.emitsInTurn hsource hordered
    obtain ⟨f, e, hf, -, herror, hbreaks⟩ := hbreak k rfl
    refine .inr ⟨⟨f, List.mem_of_getElem? hf, hbreaks.not_writable⟩, e, ?_, ?_⟩
    · rw [hlonger, messageOf, outcome, herror]
      rfl
    · rcases hcut.breaks with rfl | ⟨rfl, hfull⟩
      · refine .inl ⟨?_, ?_⟩
        · rw [hshorter, messageOf, outcome, herror]
          rfl
        · rw [hcut.broken (Option.some_ne_none k)] at hmore
          exact List.append_right_eq_self.1 hmore
      · refine .inr ⟨_, hshorter, ?_⟩
        rw [List.length_take]
        unfold emitted at hfull
        omega

/-- A group of constants and numbers. -/
def measuredGroup : Group :=
  ⟨"a", [⟨.constant "AB", none⟩, ⟨.byteNumber ⟨⟨false, .two⟩, 1, 65535⟩ .big, some "size"⟩,
    ⟨.constant "", none⟩, ⟨.textNumber ⟨⟨true, .four⟩, -70, 4000⟩ (some .hexadecimal), none⟩,
    ⟨.byteNumber ⟨⟨true, .one⟩, -2, 2⟩ .little, none⟩]⟩

/-- The environment of this group. -/
def measuredEnvironment : Environment where
  groups := [("a", measuredGroup)]
  generator := some ⟨"a", 0, 4096, [0x0A]⟩

/-- Five bytes of `measuredEnvironment` are the first of eight. -/
theorem measuredEnvironment_cut :
    (∀ f ∈ measuredGroup.fields, f.definition.LengthFree) ∧
      (∀ f ∈ measuredGroup.fields, f.definition.Ordered) ∧ Script.source.Lawful ∧
      ∃ draws more shorter longer,
        generate Script.source false (measuredEnvironment.withOutMax 8)
            (.start (.cycle [5, 3900, 1] [])) =
          (.ok [0x41, 0x42, 0x00, 0x06, 0x65, 0x66, 0x36, 0xFF], longer) ∧
        generate Script.source false (measuredEnvironment.withOutMax 5)
            (.start (.cycle [5, 3900, 1] [])) =
          (.ok [0x41, 0x42, 0x00, 0x06, 0x65], shorter) ∧
        shorter.draws = draws ∧ longer.draws = draws ++ more := by
  have hfree : ∀ f ∈ measuredGroup.fields, f.definition.LengthFree := by
    simp [measuredGroup, FieldDefinition.LengthFree]
  have hordered : ∀ f ∈ measuredGroup.fields, f.definition.Ordered := by
    simp only [measuredGroup, List.forall_mem_cons]
    exact ⟨trivial, ⟨by decide, by decide, by decide⟩, trivial,
      (by decide : (-70 : Int) ≤ 4000), ⟨by decide, by decide, by decide⟩, nofun⟩
  have hgenerator : measuredEnvironment.generator = some ⟨"a", 0, 4096, [0x0A]⟩ := rfl
  have hgroup : measuredEnvironment.group? "a" = some measuredGroup := rfl
  have hterminator : false = true → [(0x0A : UInt8)] = [] := nofun
  obtain ⟨draws, more, shorter, longer, ⟨hdraws, hdraws'⟩, hmessages⟩ :=
    generate_cut hgenerator hgroup hfree hordered Script.source_lawful hterminator
      (by decide : (0 : Int) ≤ 5) (by decide : (5 : Int) ≤ 8) (.start (.cycle [5, 3900, 1] []))
  have hmessage : (generate Script.source false (measuredEnvironment.withOutMax 8)
      (.start (.cycle [5, 3900, 1] []))).1 =
        .ok [0x41, 0x42, 0x00, 0x06, 0x65, 0x66, 0x36, 0xFF] := by decide +kernel
  obtain ⟨message, hlonger, hshorter⟩ | ⟨-, e, hlonger, -⟩ := hmessages
  · rw [hlonger] at hmessage
    cases hmessage
    exact ⟨hfree, hordered, Script.source_lawful, draws, more, shorter, longer, hlonger, hshorter,
      hdraws, hdraws'⟩
  · rw [hlonger] at hmessage
    cases hmessage

/-- A constant that is a lone surrogate, behind two characters. -/
def lateSurrogateGroup : Group :=
  ⟨"a", [⟨.constant "ab", none⟩, ⟨.constant (Text.singleton (.ofNat 0xD800)), none⟩]⟩

/-- The environment of this group. -/
def lateSurrogateEnvironment : Environment where
  groups := [("a", lateSurrogateGroup)]
  generator := some { group := "a" }

/-- A message may be there and not be the front of a longer one, as there is none. -/
theorem lateSurrogateEnvironment_cut :
    (∀ f ∈ lateSurrogateGroup.fields, f.definition.LengthFree) ∧
      (∀ f ∈ lateSurrogateGroup.fields, f.definition.Ordered) ∧ Script.source.Lawful ∧
      (generate Script.source false (lateSurrogateEnvironment.withOutMax 2) (.start .least)).1 =
        .ok [0x61, 0x62] ∧
      (generate Script.source false (lateSurrogateEnvironment.withOutMax 10) (.start .least)).1 =
        .error (.emission (.unwritable (.uncovered .utf8 (.ofNat 0xD800) 0 1))) := by
  have hfree : ∀ f ∈ lateSurrogateGroup.fields, f.definition.LengthFree := by
    simp [lateSurrogateGroup, FieldDefinition.LengthFree]
  have hordered : ∀ f ∈ lateSurrogateGroup.fields, f.definition.Ordered := by
    simp [lateSurrogateGroup, FieldDefinition.Ordered]
  exact ⟨hfree, hordered, Script.source_lawful, by decide +kernel, by decide +kernel⟩

end ByteLayout
