import ByteLayout.Proofs.Consistency
import ByteLayout.Proofs.Generation

/-!
# The law of emission

A message, told as a whole. Fields emit one after the other, each by its rule and from the state in
which the one before it leaves the source (`EmitsInTurn`). A field is visited if and only if the
chunks before it leave room (`Visits.visited_iff`), and it has this room (`Visits.room_eq`). The
message is what the visited fields emit, cut at the room for all of them, and the ending
(`generate_emission`).

Every evaluated program gives an environment of which this holds (`ordered_of_evaluate`).
-/

namespace ByteLayout

variable {σ : Type} {source : RandomSource σ} {fs : List Field} {room : Nat} {state last : σ}
  {vs : List Visit} {b : Option Break}

/-! ## Visits -/

namespace Visits

/-- The first fields are visited. -/
theorem fields_eq (h : Visits source fs room state vs b last) :
    vs.map Visit.field = fs.take vs.length := by
  induction h with
  | done | full | breaks => rfl
  | visit hroom hemit hrest ih => rw [List.map_cons, ih, List.length_cons, List.take_succ_cons]

/-- If the run does not break, a field is visited if and only if the chunks before it leave room. -/
theorem visited_iff (h : Visits source fs room state vs b last) (hb : b = none) {i : Nat}
    (hi : i < fs.length) : i < vs.length ↔ emitted (vs.take i) < room := by
  induction h generalizing i with
  | done => cases hi
  | full => simp
  | breaks => cases hb
  | @visit f fs room state mid last chunk draws vs b hroom hemit hrest ih =>
    cases i with
    | zero => exact iff_of_true (Nat.succ_pos _) hroom
    | succ i =>
      rw [List.length_cons] at hi
      have hih := ih hb (Nat.lt_of_succ_lt_succ hi)
      rw [List.take_succ_cons, emitted_cons, List.length_cons]
      dsimp only
      -- The other fields have the room that the first chunk leaves.
      omega

/-- The room for a field is what the chunks before it leave. -/
theorem room_eq (h : Visits source fs room state vs b last) {i : Nat} {v : Visit}
    (hv : vs[i]? = some v) : v.room = room - emitted (vs.take i) := by
  induction h generalizing i with
  | done | full | breaks => cases hv
  | @visit f fs room state mid last chunk draws vs b hroom hemit hrest ih =>
    cases i with
    | zero =>
      cases hv
      rfl
    | succ i =>
      rw [List.getElem?_cons_succ] at hv
      rw [List.take_succ_cons, emitted_cons, ih hv]
      exact Nat.sub_sub _ _ _

end Visits

/-! ## Messages -/

variable {g : Generator} {group : Group} {env : Environment}

/-- The ending is the terminator, cut at the greatest length of a message, or nothing. -/
theorem Generator.ending_eq (hmax : 0 ≤ g.outMax) (appendTerminator : Bool) :
    g.ending appendTerminator =
      if appendTerminator then g.terminator.take g.outMax.toNat else [] := by
  unfold ending Sequence.before Sequence.resolve
  rw [if_neg (by omega : ¬ g.outMax < 0)]

/-- The room is what the ending leaves of the greatest number of bytes. -/
theorem Generator.room_eq (hmax : 0 ≤ g.outMax) (appendTerminator : Bool) :
    (g.room appendTerminator : Int) = g.outMax - (g.ending appendTerminator).length := by
  have hending := Generator.length_ending hmax appendTerminator
  unfold room
  omega

/-- The fields of an evaluated program are ordered, and its greatest length is not negative. -/
theorem ordered_of_evaluate {p : Program} (h : evaluate p = .ok env) :
    (∃ g, env.generator = some g ∧ 0 ≤ g.outMax) ∧
      ∀ entry ∈ env.groups, ∀ f ∈ entry.2.fields, f.definition.Ordered := by
  have hconsistent := (Evaluator.standing_of_run (evaluate_eq_ok.1 h)).consistent
  obtain ⟨g, hg⟩ := Option.isSome_iff_exists.1 (hconsistent.generator.2 (.inr rfl))
  exact ⟨⟨g, hg, (hconsistent.generatorBounds g hg).outMax_nonneg⟩, hconsistent.ordered⟩

/-- A message of ordered fields. The first fields emit in turn, each with the room that the ones
before it leave, and as long as there is any. The message is what they emit, cut at the room that
the ending leaves, and the ending. The source is asked for what these fields draw and for nothing
else. Only where there is room for a field that cannot be written, which is a constant without bytes
or a number too long for its base, there is no message. -/
theorem generate_emission (hgenerator : env.generator = some g)
    (hgroup : env.group? g.group = some group) (hmax : 0 ≤ g.outMax)
    (hfields : ∀ f ∈ group.fields, f.definition.Ordered) (hsource : source.Lawful)
    (appendTerminator : Bool) (s : Session σ) :
    g.ending appendTerminator =
        (if appendTerminator then g.terminator.take g.outMax.toNat else []) ∧
      (g.room appendTerminator : Int) = g.outMax - (g.ending appendTerminator).length ∧
      ∃ vs mid s', vs.map Visit.field = group.fields.take vs.length ∧
        (∀ i v, vs[i]? = some v → v.room = g.room appendTerminator - emitted (vs.take i)) ∧
        EmitsInTurn source s.state vs mid ∧
        ((generate source appendTerminator env s =
              (.ok ((vs.flatMap Visit.chunk).take (g.room appendTerminator) ++
                g.ending appendTerminator), s') ∧
            (∀ i < group.fields.length,
              i < vs.length ↔ emitted (vs.take i) < g.room appendTerminator) ∧
            s'.state = mid ∧ s'.draws = s.draws ++ vs.flatMap Visit.draws) ∨
          ∃ f e draws, generate source appendTerminator env s =
              (.error (.emission (.unwritable e)), s') ∧
            group.fields[vs.length]? = some f ∧ emitted vs < g.room appendTerminator ∧
            f.definition.Breaks source mid e draws s'.state ∧
            s'.draws = s.draws ++ (vs.flatMap Visit.draws ++ draws)) := by
  have hgenerate := generate_of_some source hgenerator hgroup appendTerminator s
  refine ⟨Generator.ending_eq hmax _, Generator.room_eq hmax _, ?_⟩
  obtain ⟨vs, s', hmessage, hvs, hdraws⟩ | ⟨vs, b, s', hmessage, hvs, hdraws⟩ :=
    generateGroup_cases source hmax appendTerminator group s
  · obtain ⟨mid, hturn, hmid, -⟩ := hvs.emitsInTurn hsource hfields
    exact ⟨vs, mid, s', hvs.fields_eq, fun i v => hvs.room_eq, hturn,
      .inl ⟨hgenerate.trans hmessage, fun i => hvs.visited_iff rfl, (hmid rfl).symm, hdraws⟩⟩
  · obtain ⟨mid, hturn, -, hbreak⟩ := hvs.emitsInTurn hsource hfields
    obtain ⟨f, e, hf, hless, herror, hbreaks⟩ := hbreak b rfl
    rw [herror] at hmessage
    exact ⟨vs, mid, s', hvs.fields_eq, fun i v => hvs.room_eq, hturn,
      .inr ⟨f, e, b.draws, hgenerate.trans hmessage, hf, hless, hbreaks, hdraws⟩⟩

/-- A program with a constant beyond numbers of 64 bits and with more fields than its message has
room for. -/
def crampedProgram : Program :=
  ⟨[.startGroup "a", .constantField (.text "AB") none,
    .constantField (.integer 0x8000000000000000) none, .variableField "bytes" (some "tail"),
    .variableField "be_u16" none, .selectField "tail",
    .updateField "LEN" (.group [.literal (.integer 1), .literal (.integer 9)]),
    .startGenerator "a", .setParameter "OUT_MAX" (.literal (.integer 25)),
    .setParameter "TERM" (.literal (.reserved "lf")), .run]⟩

/-- The fields of this program. -/
def crampedGroup : Group :=
  ⟨"a", [⟨.constant "AB", none⟩,
    ⟨.textNumber ⟨⟨true, .eight⟩, 0x8000000000000000, 0x8000000000000000⟩ none, none⟩,
    ⟨.bytes ⟨1, 9⟩, some "tail"⟩, ⟨.byteNumber ⟨⟨false, .two⟩, 0, 65535⟩ .big, none⟩]⟩

/-- The environment of this program. -/
def crampedEnvironment : Environment where
  groups := [("a", crampedGroup)]
  generator := some ⟨"a", 0, 25, [0x0A]⟩

/-- The last field of `crampedEnvironment` is cut, and the terminator follows. -/
theorem crampedEnvironment_emission :
    evaluate crampedProgram = .ok crampedEnvironment ∧ Script.source.Lawful ∧
      (∀ f ∈ crampedGroup.fields, f.definition.Ordered) ∧
      ∃ vs s', generate Script.source true crampedEnvironment (.start .greatest) =
          (.ok ((vs.flatMap Visit.chunk).take 24 ++ [0x0A]), s') ∧
        vs.map Visit.field = crampedGroup.fields.take vs.length ∧
        (∀ i < 4, i < vs.length ↔ emitted (vs.take i) < 24) ∧
        EmitsInTurn Script.source .greatest vs s'.state ∧
        s'.draws = vs.flatMap Visit.draws := by
  have heval : evaluate crampedProgram = .ok crampedEnvironment := by decide +kernel
  have hfields : ∀ f ∈ crampedGroup.fields, f.definition.Ordered :=
    (ordered_of_evaluate heval).2 ("a", crampedGroup) List.mem_cons_self
  have hgenerator : crampedEnvironment.generator = some ⟨"a", 0, 25, [0x0A]⟩ := rfl
  have hgroup : crampedEnvironment.group? "a" = some crampedGroup := rfl
  have hfine : (generate Script.source true crampedEnvironment (.start .greatest)).1.isOk := by
    decide +kernel
  obtain ⟨-, -, vs, mid, s', hvisited, -, hturn, hmessage⟩ :=
    generate_emission hgenerator hgroup (by decide) hfields Script.source_lawful true
      (.start .greatest)
  obtain ⟨hmessage, hlaw, rfl, hdraws⟩ | ⟨f, e, draws, hmessage, -⟩ := hmessage
  · exact ⟨heval, Script.source_lawful, hfields, vs, s', hmessage, hvisited, hlaw, hturn,
      hdraws⟩
  · rw [hmessage] at hfine
    cases hfine

/-- A constant that is a lone surrogate, behind one that is not and before a number. -/
def brokenGroup : Group :=
  ⟨"a", [⟨.constant "ab", none⟩, ⟨.constant (Text.singleton (.ofNat 0xD800)), none⟩,
    ⟨.byteNumber (.ofFormat ⟨false, .one⟩) .big, none⟩]⟩

/-- The environment of this group. -/
def brokenEnvironment : Environment where
  groups := [("a", brokenGroup)]
  generator := some { group := "a" }

/-- A run over ordered fields may break, and what its fields emitted before is lost. -/
theorem brokenEnvironment_emission :
    (∀ f ∈ brokenGroup.fields, f.definition.Ordered) ∧ Script.source.Lawful ∧
      generate Script.source false brokenEnvironment (.start .greatest) =
        (.error (.emission (.unwritable (.uncovered .utf8 (.ofNat 0xD800) 0 1))),
          { state := .greatest, log := [.emitted 2 none] }) := by
  have hordered : ∀ f ∈ brokenGroup.fields, f.definition.Ordered := by
    simp only [brokenGroup, List.forall_mem_cons]
    exact ⟨trivial, trivial, NumberRange.sound_ofFormat _, nofun⟩
  exact ⟨hordered, Script.source_lawful, rfl⟩

end ByteLayout
