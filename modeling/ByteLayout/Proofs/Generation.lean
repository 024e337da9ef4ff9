import ByteLayout.Proofs.Emission

/-!
# Generation

The message of a group is the bytes of the visits of its fields, cut at the room that the ending
leaves, and the ending (`generateGroup_isOk`). `generate_of_compile` is about the environments of
texts: generation fails if and only if the group to emit is not there, and a message keeps to its
greatest length while the source is asked for nothing out of bounds. The scripted sources are lawful
(`Script.source_lawful`).
-/

namespace ByteLayout

/-! ## Scripted sources -/

namespace Script

/-- A script draws numbers below the bound. -/
theorem below_mem {n : Int} (hn : 0 < n) (script : Script) :
    0 ≤ (below n script).1 ∧ (below n script).1 < n := by
  cases script with
  | least => exact ⟨Int.le_refl 0, hn⟩
  | greatest =>
    dsimp only [below]
    omega
  | cycle all left =>
    cases left with
    | cons x left => exact ⟨Int.fmod_nonneg_of_pos x hn, Int.fmod_lt_of_pos x hn⟩
    | nil =>
      cases all with
      | cons x all => exact ⟨Int.fmod_nonneg_of_pos x hn, Int.fmod_lt_of_pos x hn⟩
      | nil => exact ⟨Int.le_refl 0, hn⟩
  | congruential last => exact ⟨Int.fmod_nonneg_of_pos _ hn, Int.fmod_lt_of_pos _ hn⟩

/-- A script draws as many numbers as it is asked for. -/
theorem length_manyBelow (n : Int) (drawn : List Int) (count : Nat) (script : Script) :
    (manyBelow n drawn count script).1.length = drawn.length + count := by
  induction count generalizing drawn script with
  | zero => exact List.length_reverse
  | succ count ih =>
    rw [manyBelow, ih, List.length_cons]
    omega

/-- All of them are below the bound. -/
theorem manyBelow_mem {n : Int} (hn : 0 < n) {drawn : List Int}
    (hdrawn : ∀ i ∈ drawn, 0 ≤ i ∧ i < n) (count : Nat) (script : Script) :
    ∀ i ∈ (manyBelow n drawn count script).1, 0 ≤ i ∧ i < n := by
  induction count generalizing drawn script with
  | zero =>
    intro i hi
    exact hdrawn i (List.mem_reverse.1 hi)
  | succ count ih =>
    refine ih ?_ _
    intro i hi
    rcases List.mem_cons.1 hi with rfl | hi
    · exact below_mem hn script
    · exact hdrawn i hi

/-- Whatever the script, callers may rely on the source. -/
theorem source_lawful : source.Lawful where
  between_mem a b script hle := by
    have hmem := below_mem (n := b - a + 1) (by omega) script
    dsimp only [source]
    omega
  length_picks population n script hne := by
    have hpos : (0 : Int) < population.length := Int.natCast_pos.2 (List.length_pos_iff.2 hne)
    have hall : ∀ i ∈ (manyBelow population.length [] n.toNat script).1,
        (population[i.toNat]?).isSome := by
      intro i hi
      have hmem := manyBelow_mem hpos (fun _ h => absurd h List.not_mem_nil) n.toNat script i hi
      rw [List.getElem?_eq_getElem (by omega)]
      rfl
    dsimp only [source]
    rw [List.filterMap_length_eq_length.2 hall, length_manyBelow, List.length_nil, Nat.zero_add]
  mem_picks population n script c hc := by
    obtain ⟨i, -, hi⟩ := List.mem_filterMap.1 hc
    exact List.mem_of_getElem? hi
  length_bytes n script := by
    dsimp only [source]
    rw [List.length_map, length_manyBelow, List.length_nil, Nat.zero_add]

end Script

/-! ## Groups -/

variable {σ : Type} {source : RandomSource σ} {g : Generator} {group : Group}

/-- The room for the fields of a message. -/
def Generator.room (g : Generator) (appendTerminator : Bool) : Nat :=
  (g.outMax - (g.ending appendTerminator).length).toNat

/-- The ending fits the greatest number of bytes. -/
theorem Generator.length_ending (hmax : 0 ≤ g.outMax) (appendTerminator : Bool) :
    ((g.ending appendTerminator).length : Int) ≤ g.outMax := by
  unfold ending
  split
  · unfold Sequence.before Sequence.resolve
    rw [if_neg (by omega), List.length_take]
    omega
  · exact hmax

/-- A message is what the visited fields emit, cut at the room, and the ending, unless the run over
the fields breaks. -/
theorem generateGroup_cases (source : RandomSource σ) (hmax : 0 ≤ g.outMax)
    (appendTerminator : Bool) (group : Group) (s : Session σ) :
    (∃ vs s',
      generateGroup source appendTerminator g group s =
        (.ok ((vs.flatMap Visit.chunk).take (g.room appendTerminator) ++ g.ending appendTerminator),
          s') ∧
      Visits source group.fields (g.room appendTerminator) s.state vs none s'.state ∧
      s'.draws = s.draws ++ vs.flatMap Visit.draws) ∨
    ∃ vs b s',
      generateGroup source appendTerminator g group s = (.error (.emission b.error), s') ∧
      Visits source group.fields (g.room appendTerminator) s.state vs (some b) s'.state ∧
      s'.draws = s.draws ++ (vs.flatMap Visit.draws ++ b.draws) := by
  have hroom : OutputBuffer.ofCapacity (g.outMax - (g.ending appendTerminator).length) =
      .ok { capacity := g.room appendTerminator } := by
    have hending := Generator.length_ending hmax appendTerminator
    unfold OutputBuffer.ofCapacity
    rw [if_neg (by omega)]
    rfl
  unfold generateGroup
  dsimp only
  rw [hroom]
  -- A warning goes to the records only.
  generalize hbegin : (if g.outMax < g.outMin then s.record (.boundsCrossed g) else s) = t
  have hsame : t.state = s.state ∧ t.draws = s.draws := by
    rw [← hbegin]
    split
    · exact ⟨rfl, rfl⟩
    · exact ⟨rfl, rfl⟩
  dsimp only
  obtain ⟨vs, b, hvs, hcontent, hdraws⟩ := Session.visits_emitFields source group.name group.fields
    { capacity := g.room appendTerminator } t
  rw [hsame.1] at hvs
  rw [hsame.2] at hdraws
  generalize t.emitFields source group.name group.fields
    { capacity := g.room appendTerminator } = run at hvs hcontent hdraws ⊢
  obtain ⟨result, s'⟩ := run
  cases b with
  | none =>
    obtain ⟨after, rfl, hafter⟩ := Except.map_eq_ok.1 hcontent
    refine .inl ⟨vs, s', ?_, hvs, by simpa using hdraws⟩
    dsimp only
    rw [hafter]
    rfl
  | some b =>
    obtain rfl := Except.map_eq_error.1 hcontent
    exact .inr ⟨vs, b, s', rfl, hvs, by simpa using hdraws⟩

/-! ## Environments -/

/-- No group has the name. -/
def Environment.Lacks (env : Environment) (name : Text) : Prop :=
  ∀ entry ∈ env.groups, entry.2.name ≠ name

/-- A sound environment finds every group that it does not lack. -/
theorem Environment.Sound.group?_eq_none {env : Environment} (h : env.Sound) {name : Text} :
    env.group? name = none ↔ env.Lacks name := by
  rw [Environment.group?_eq_none]
  constructor
  · intro hkeys entry hentry
    rw [← h.keys entry hentry]
    exact hkeys entry hentry
  · intro hnames entry hentry
    rw [h.keys entry hentry]
    exact hnames entry hentry

/-- The target is the group of the generator. -/
theorem Environment.target_eq {env : Environment} (h : env.generator = some g) :
    env.target = (env.group g.group).map fun group => (g, group) := by
  unfold target getGenerator
  rw [h]

/-- Without the group there is no target. -/
theorem Environment.target_of_none {env : Environment} (h : env.generator = some g)
    (hgroup : env.group? g.group = none) : env.target = .error (.groupMissing g.group) := by
  rw [target_eq h, Environment.group, hgroup]
  rfl

/-- The target is there if the group is. -/
theorem Environment.target_of_some {env : Environment} (h : env.generator = some g)
    (hgroup : env.group? g.group = some group) : env.target = .ok (g, group) := by
  rw [target_eq h, Environment.group, hgroup]
  rfl

/-- The fields of a sound environment are sound. -/
theorem Environment.Sound.fields_of_group? {env : Environment} (h : env.Sound) {key : Text}
    (hgroup : env.group? key = some group) : ∀ f ∈ group.fields, f.definition.Sound := by
  obtain ⟨entry, hfind, rfl⟩ := Option.map_eq_some_iff.1 hgroup
  exact h.fields entry (List.mem_of_find?_eq_some hfind)

/-- With generator and group, the group is generated. -/
theorem generate_of_some (source : RandomSource σ) {env : Environment}
    (h : env.generator = some g) (hgroup : env.group? g.group = some group)
    (appendTerminator : Bool) (s : Session σ) : generate source appendTerminator env s =
      generateGroup source appendTerminator g group s := by
  unfold generate
  rw [Environment.target_of_some h hgroup]

/-- Without the group to emit nothing is generated and nothing is drawn. -/
theorem generate_of_lacks (source : RandomSource σ) {env : Environment} (henv : env.Sound)
    (hg : env.generator = some g) (hlacks : env.Lacks g.group) (appendTerminator : Bool)
    (s : Session σ) :
    env.validate = .error (.groupMissing g.group) ∧
      generate source appendTerminator env s = (.error (.problem (.groupMissing g.group)), s) := by
  have htarget := Environment.target_of_none hg (henv.group?_eq_none.2 hlacks)
  constructor
  · unfold Environment.validate
    rw [htarget]
    rfl
  · unfold generate
    rw [htarget]

/-- A message of the group to emit keeps to its greatest length, and its visits to the rules of
their fields and to what is allowed. There is none if the run reaches a constant without bytes. -/
theorem generate_of_group {env : Environment} (henv : env.Sound) (hsource : source.Lawful)
    (hgenerator : env.generator = some g) (hg : g.Sound) (hgroup : env.group? g.group = some group)
    (appendTerminator : Bool) (s : Session σ) :
    env.validate = .ok () ∧
      ∃ vs b s', Visits source group.fields (g.room appendTerminator) s.state vs b s'.state ∧
        s'.draws = s.draws ++ vs.flatMap Visit.draws ∧
        (∀ v ∈ vs, v.field.definition.Produces v.room v.chunk v.draws ∧
          ∀ draw ∈ v.draws, v.field.definition.Allows v.room draw) ∧
        ((∃ message, generate source appendTerminator env s = (.ok message, s') ∧ b = none ∧
            (message.length : Int) ≤ g.outMax ∧
            message = (vs.flatMap Visit.chunk).take (g.room appendTerminator) ++
              g.ending appendTerminator) ∨
          ∃ f text e, generate source appendTerminator env s =
              (.error (.emission (.unwritable e)), s') ∧ b ≠ none ∧
            group.fields[vs.length]? = some f ∧ emitted vs < g.room appendTerminator ∧
            f.definition = .constant text ∧ Text.utf8 text = .error e) := by
  have hfields := henv.fields_of_group? hgroup
  have hordered : ∀ f ∈ group.fields, f.definition.Ordered := fun f hf => (hfields f hf).ordered
  have hgenerate := generate_of_some source hgenerator hgroup appendTerminator s
  have hvalidate : env.validate = .ok () := by
    unfold Environment.validate
    rw [Environment.target_of_some hgenerator hgroup]
    rfl
  have hrules {vs : List Visit} {b : Option Break} {last : σ}
      (hvs : Visits source group.fields (g.room appendTerminator) s.state vs b last) :
      ∀ v ∈ vs, v.field.definition.Produces v.room v.chunk v.draws ∧
        ∀ draw ∈ v.draws, v.field.definition.Allows v.room draw := by
    intro v hv
    obtain ⟨hmem, hrule⟩ := hvs.produces hsource hordered v hv
    exact ⟨hrule, fun draw hdraw => hrule.allows (hfields _ hmem) hdraw⟩
  refine ⟨hvalidate, ?_⟩
  obtain ⟨vs, s', hmessage, hvs, hdraws⟩ | ⟨vs, b, s', hmessage, hvs, hdraws⟩ :=
    generateGroup_cases source hg.outMax_nonneg appendTerminator group s
  · refine ⟨vs, none, s', hvs, hdraws, hrules hvs,
      .inl ⟨_, hgenerate.trans hmessage, rfl, ?_, rfl⟩⟩
    have hending := Generator.length_ending hg.outMax_nonneg appendTerminator
    rw [List.length_append, List.length_take]
    unfold Generator.room
    omega
  · obtain ⟨mid, -, -, hbreak⟩ := hvs.emitsInTurn hsource hordered
    obtain ⟨f, e, hf, hless, herror, hbreaks⟩ := hbreak b rfl
    -- A sound field that breaks is a constant, and draws nothing.
    obtain ⟨text, htext, hutf8, hnone, -⟩ :=
      hbreaks.exists_constant (hfields f (List.mem_of_getElem? hf))
    rw [hnone, List.append_nil] at hdraws
    rw [herror] at hmessage
    exact ⟨vs, some b, s', hvs, hdraws, hrules hvs,
      .inr ⟨f, text, e, hgenerate.trans hmessage, nofun, hf, hless, htext, hutf8⟩⟩

/-- Generation from the environment of a text with a lawful source. There is nothing to generate
from if and only if no group has the name that is to be generated, and then nothing is drawn.
Otherwise there is a message of at most the greatest length, which holds what the visited fields
emit, cut at the room, and the ending; unless there is room for a constant that has no bytes, at
which the run ends with an error. Nothing out of bounds is drawn for the visited fields: bounds are
in order, lengths keep to the room that is left, and numbers fit their formats. -/
theorem generate_of_compile {text : Text} {limit : Int} {env : Environment}
    (henv : (compile text limit).1 = .ok env) (hsource : source.Lawful) (appendTerminator : Bool)
    (s : Session σ) :
    ∃ g, env.generator = some g ∧
      ((∃ p, env.validate = .error p) ↔ env.Lacks g.group) ∧
      ((∃ p, (generate source appendTerminator env s).1 = .error (.problem p) ∧
          p.kind = .construction) ↔ env.Lacks g.group) ∧
      (env.Lacks g.group → (generate source appendTerminator env s).2 = s) ∧
      (¬ env.Lacks g.group →
        ∃ group vs b s', env.group? g.group = some group ∧
          Visits source group.fields (g.room appendTerminator) s.state vs b s'.state ∧
          s'.draws = s.draws ++ vs.flatMap Visit.draws ∧
          (∀ v ∈ vs, v.field.definition.Produces v.room v.chunk v.draws ∧
            ∀ draw ∈ v.draws, v.field.definition.Allows v.room draw) ∧
          ((∃ message, generate source appendTerminator env s = (.ok message, s') ∧ b = none ∧
              (message.length : Int) ≤ g.outMax ∧
              message = (vs.flatMap Visit.chunk).take (g.room appendTerminator) ++
                g.ending appendTerminator) ∨
            ∃ f text e, generate source appendTerminator env s =
                (.error (.emission (.unwritable e)), s') ∧ b ≠ none ∧
              group.fields[vs.length]? = some f ∧ emitted vs < g.room appendTerminator ∧
              f.definition = .constant text ∧ Text.utf8 text = .error e)) := by
  have hsound := sound_of_compile henv
  obtain ⟨g, hgenerator, hg⟩ := hsound.generator
  refine ⟨g, hgenerator, ?_⟩
  cases hgroup : env.group? g.group with
  | none =>
    have hlacks := hsound.group?_eq_none.1 hgroup
    obtain ⟨hvalidate, hgenerate⟩ :=
      generate_of_lacks source hsound hgenerator hlacks appendTerminator s
    rw [hgenerate]
    refine ⟨iff_of_true ⟨_, hvalidate⟩ hlacks, iff_of_true ⟨_, rfl, rfl⟩ hlacks, fun _ => rfl, ?_⟩
    intro hthere
    exact absurd hlacks hthere
  | some group =>
    have hthere : ¬ env.Lacks g.group := by
      rw [← hsound.group?_eq_none, hgroup]
      exact Option.some_ne_none group
    obtain ⟨hvalidate, vs, b, s', hvs, hdraws, hrules, hmessage⟩ :=
      generate_of_group hsound hsource hgenerator hg hgroup appendTerminator s
    rw [hvalidate]
    refine ⟨iff_of_false nofun hthere, iff_of_false ?_ hthere, fun hlacks => absurd hlacks hthere,
      fun _ => ⟨group, vs, b, s', rfl, hvs, hdraws, hrules, hmessage⟩⟩
    rintro ⟨p, hp, -⟩
    obtain ⟨message, hgenerate, -⟩ | ⟨f, text, e, hgenerate, -⟩ := hmessage
    · rw [hgenerate] at hp
      cases hp
    · rw [hgenerate] at hp
      cases hp

/-- A group that may be longer than its message. -/
def longGroupSource : Text :=
  "DEFINE a le_u16 bytes GENERATE a OUT_MAX = 6 TERM = lf"

/-- The program of this text. -/
def longGroupProgram : Program :=
  ⟨[.startGroup "a", .variableField "le_u16" none, .variableField "bytes" none,
    .startGenerator "a", .setParameter "OUT_MAX" (.literal (.integer 6)),
    .setParameter "TERM" (.literal (.reserved "lf")), .run]⟩

/-- The fields of this program. -/
def longGroup : Group :=
  ⟨"a", [⟨.byteNumber ⟨⟨false, .two⟩, 0, 65535⟩ .little, none⟩, ⟨.bytes {}, none⟩]⟩

/-- The environment of this program. -/
def longGroupEnvironment : Environment where
  groups := [("a", longGroup)]
  generator := some ⟨"a", 0, 6, [0x0A]⟩

/-- What `longGroupSource` compiles to gives a message within its six bytes. -/
theorem longGroupEnvironment_generate :
    (compile longGroupSource 80).1 = .ok longGroupEnvironment ∧ Script.source.Lawful ∧
      ∃ message s', generate Script.source true longGroupEnvironment (.start .greatest) =
        (.ok message, s') ∧ (message.length : Int) ≤ 6 := by
  have hread : longGroupProgram.ReadFrom longGroupSource :=
    Program.readFrom_iff.2 (by decide +kernel)
  have henv : (compile longGroupSource 80).1 = .ok longGroupEnvironment :=
    compile_eq_ok.2 ⟨by decide +kernel, _, hread, by decide +kernel⟩
  obtain ⟨g, hgenerator, -, -, -, hmessage⟩ :=
    generate_of_compile henv Script.source_lawful true (.start .greatest)
  cases hgenerator
  have hthere : ¬ longGroupEnvironment.Lacks "a" := by
    intro hlacks
    exact hlacks _ List.mem_cons_self rfl
  obtain ⟨group, vs, b, s', hgroup, -, -, -, hmessage⟩ := hmessage hthere
  cases (show longGroupEnvironment.group? "a" = some longGroup from rfl).symm.trans hgroup
  have hnone : ∀ f ∈ longGroup.fields, ∀ text, f.definition ≠ .constant text := by
    simp [longGroup]
  obtain ⟨message, hgenerate, -, hlength, -⟩ | ⟨f, text, e, -, -, hf, -, hconstant, -⟩ := hmessage
  · exact ⟨henv, Script.source_lawful, message, s', hgenerate, hlength⟩
  · exact absurd hconstant (hnone f (List.mem_of_getElem? hf) text)

/-- A constant that is a lone surrogate. -/
def loneSurrogateSource : Text :=
  "DEFINE a \"" ++ Text.singleton (.ofNat 0xD800) ++ "\" GENERATE a"

/-- The program of this text. -/
def loneSurrogateProgram : Program :=
  ⟨[.startGroup "a", .constantField (.text (Text.singleton (.ofNat 0xD800))) none,
    .startGenerator "a", .run]⟩

/-- The environment of this program. -/
def loneSurrogateEnvironment : Environment where
  groups := [("a", ⟨"a", [⟨.constant (Text.singleton (.ofNat 0xD800)), none⟩]⟩)]
  generator := some { group := "a" }

/-- A text may be read, and yet nothing be generated from its environment. -/
theorem loneSurrogateEnvironment_generate :
    (compile loneSurrogateSource 80).1 = .ok loneSurrogateEnvironment ∧
      loneSurrogateEnvironment.validate = .ok () ∧ Script.source.Lawful ∧
      (generate Script.source false loneSurrogateEnvironment (.start .least)).1 =
        .error (.emission (.unwritable (.uncovered .utf8 (.ofNat 0xD800) 0 1))) := by
  have hread : loneSurrogateProgram.ReadFrom loneSurrogateSource :=
    Program.readFrom_iff.2 (by decide +kernel)
  have henv : (compile loneSurrogateSource 80).1 = .ok loneSurrogateEnvironment :=
    compile_eq_ok.2 ⟨by decide +kernel, _, hread, by decide +kernel⟩
  exact ⟨henv, rfl, Script.source_lawful, rfl⟩

end ByteLayout
