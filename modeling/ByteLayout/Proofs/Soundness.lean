import ByteLayout.Compilation
import ByteLayout.Proofs.Arguments
import ByteLayout.Proofs.Evaluation
import ByteLayout.Proofs.RoundTrip

/-!
# What environments guarantee

A field definition is sound if numbers can be drawn from it: its range is in order and inside its
format, or its lengths are in order and not negative. It is ordered if at least this holds but that
the range of a number as text may lie outside its format, as that of a constant may. Attributes
keep a definition sound (`sound_update`) and ordered (`ordered_update`), and `Environment.Sound`
says what is left of this in an environment: its fields are sound, its groups stand under their
names, and its generator has bounds that are not negative.

`compile_eq_ok`: the environment of a text is that of the program that is read from it.
`sound_of_compile`: it is sound. Its constants are numbers of 64 bits because the words of a text
are.
-/

namespace ByteLayout

/-! ## Ranges and lengths -/

/-- The range is in order and inside its format. -/
structure NumberRange.Sound (r : NumberRange) : Prop where
  /-- The format holds the least number. -/
  minimum_le : r.format.minimum ≤ r.min
  /-- The least number is not above the greatest. -/
  min_le_max : r.min ≤ r.max
  /-- The format holds the greatest number. -/
  le_maximum : r.max ≤ r.format.maximum

/-- The lengths are in order and not negative. -/
structure LengthBounds.Sound (b : LengthBounds) : Prop where
  /-- The least length is not negative. -/
  nonneg : 0 ≤ b.min
  /-- The least length is not above the greatest. -/
  min_le_max : b.min ≤ b.max

/-- The range of a whole format is sound. -/
theorem NumberRange.sound_ofFormat (f : NumberFormat) : (ofFormat f).Sound :=
  ⟨Int.le_refl _, f.minimum_le_maximum, Int.le_refl _⟩

/-- A range of arguments is sound. -/
theorem NumberRange.sound_ofArgument {r r' : NumberRange} {e : Expr}
    (h : r.ofArgument e = .ok r') : r'.Sound := by
  obtain ⟨lower, upper, -, hmin, hle, hmax, rfl⟩ := ofArgument_eq_ok.1 h
  exact ⟨hmin, hle, hmax⟩

/-- Lengths of arguments are sound. -/
theorem LengthBounds.sound_ofArgument {b : LengthBounds} {e : Expr}
    (h : ofArgument e = .ok b) : b.Sound := by
  obtain ⟨n, -, hn, rfl⟩ | ⟨lower, upper, -, hlower, hle, rfl⟩ := ofArgument_eq_ok.1 h
  · exact ⟨hn, Int.le_refl n⟩
  · exact ⟨hlower, hle⟩

/-! ## Definitions -/

namespace FieldDefinition

/-- Content can be drawn from the definition. -/
def Sound : FieldDefinition → Prop
  | constant _ => True
  | textNumber range _ | byteNumber range _ => range.Sound
  | text length | bytes length => length.Sound

/-- The bounds of the definition are in order. Of a number as text no more is said: its range may
lie outside its format. -/
def Ordered : FieldDefinition → Prop
  | constant _ => True
  | textNumber range _ => range.min ≤ range.max
  | byteNumber range _ => range.Sound
  | text length | bytes length => length.Sound

variable {d d' : FieldDefinition} {attr : Text} {e : Expr} {cs : List Clause}

/-- What is sound has its bounds in order. -/
theorem Sound.ordered (h : d.Sound) : d.Ordered := by
  cases d with
  | constant s => trivial
  | textNumber range display => exact h.min_le_max
  | text length | byteNumber range order | bytes length => exact h

/-- An attribute sets sound bounds, or else the display of a number and no bounds. -/
theorem sound_or_display_of_update (hupdate : d.update attr e = .ok d') :
    d'.Sound ∨ ∃ range display base,
      d = textNumber range display ∧ d' = textNumber range (some base) := by
  cases update_eq_ok_iff_updates.1 hupdate with
  | textRange hrange | byteRange hrange => exact .inl (NumberRange.sound_ofArgument hrange)
  | format => exact .inr ⟨_, _, _, rfl, rfl⟩
  | textLength hlength | bytesLength hlength =>
    exact .inl (LengthBounds.sound_ofArgument hlength)

/-- An attribute keeps a definition sound. -/
theorem sound_update (h : d.Sound) (hupdate : d.update attr e = .ok d') : d'.Sound := by
  rcases sound_or_display_of_update hupdate with hsound | ⟨range, display, base, rfl, rfl⟩
  · exact hsound
  · exact h

/-- An attribute keeps the bounds in order. -/
theorem ordered_update (h : d.Ordered) (hupdate : d.update attr e = .ok d') : d'.Ordered := by
  rcases sound_or_display_of_update hupdate with hsound | ⟨range, display, base, rfl, rfl⟩
  · exact hsound.ordered
  · exact h

/-- Attributes keep a definition sound. -/
theorem sound_setAll (h : d.Sound) (hall : d.setAll cs = .ok d') : d'.Sound := by
  induction cs using List.reverseRecOn generalizing d' with
  | nil =>
    cases hall
    exact h
  | append_singleton cs c ih =>
    obtain ⟨mid, hmid, hlast⟩ := setAll_concat.1 hall
    exact sound_update (ih hmid) hlast

/-- The definition of a type is sound. -/
theorem sound_ofTypeName {kind : Text} (h : ofTypeName kind = .ok d) : d.Sound := by
  unfold ofTypeName at h
  split at h
  · next definition hsome =>
    cases h
    unfold ofTypeName? at hsome
    split at hsome
    · obtain ⟨f, -, rfl⟩ := Option.map_eq_some_iff.1 hsome
      exact NumberRange.sound_ofFormat f
    · split at hsome
      · cases hsome
        exact ⟨by decide, by decide⟩
      · split at hsome
        · cases hsome
          exact ⟨by decide, by decide⟩
        · obtain ⟨f, -, rfl⟩ := Option.map_eq_some_iff.1 hsome
          exact NumberRange.sound_ofFormat f
  · cases h

/-- The definition of a literal has its bounds in order. -/
theorem ordered_ofLiteral {l : Literal} (h : ofLiteral l = .ok d) : d.Ordered := by
  cases l with
  | integer n =>
    cases h
    exact Int.le_refl n
  | text s =>
    cases h
    trivial
  | bytes bs => cases h
  | reserved name => cases h

/-- A constant number that a text can hold fits the format of constants. -/
theorem sound_ofLiteral {l : Literal} (hl : l.Spellable) (h : ofLiteral l = .ok d) : d.Sound := by
  cases l with
  | integer n =>
    cases h
    obtain ⟨hlow, hhigh⟩ : Lexeme.IsSigned64 n := hl
    have hminimum : NumberFormat.minimum ⟨true, .eight⟩ = -0x8000000000000000 := by decide
    have hmaximum : NumberFormat.maximum ⟨true, .eight⟩ = 0x8000000000000000 - 1 := by decide
    refine ⟨?_, Int.le_refl _, ?_⟩
    · rw [hminimum]
      exact hlow
    · show n ≤ NumberFormat.maximum ⟨true, .eight⟩
      rw [hmaximum]
      omega
  | text s =>
    cases h
    trivial
  | bytes bs => cases h
  | reserved name => cases h

end FieldDefinition

/-! ## Generators -/

/-- The bounds on the output are not negative. -/
structure Generator.Sound (g : Generator) : Prop where
  /-- The least number of bytes is not negative. -/
  outMin_nonneg : 0 ≤ g.outMin
  /-- The greatest number of bytes is not negative. -/
  outMax_nonneg : 0 ≤ g.outMax

/-- A parameter keeps a generator sound. -/
theorem Generator.sound_update {g g' : Generator} {name : Text} {value : Expr} (h : g.Sound)
    (hupdate : g.update name value = .ok g') : g'.Sound := by
  unfold update at hupdate
  split at hupdate
  · obtain ⟨n, hn, rfl⟩ := Except.map_eq_ok.1 hupdate
    exact ⟨(bound_eq_ok.1 hn).2, h.outMax_nonneg⟩
  · obtain ⟨n, hn, rfl⟩ := Except.map_eq_ok.1 hupdate
    exact ⟨h.outMin_nonneg, (bound_eq_ok.1 hn).2⟩
  · obtain ⟨bs, -, rfl⟩ := Except.map_eq_ok.1 hupdate
    exact ⟨h.outMin_nonneg, h.outMax_nonneg⟩
  · cases hupdate

/-- Parameters keep a generator sound. -/
theorem Generator.sound_setAll {g g' : Generator} {ps : List (Text × Expr)} (h : g.Sound)
    (hall : g.setAll ps = .ok g') : g'.Sound := by
  induction ps generalizing g with
  | nil =>
    cases hall
    exact h
  | cons p ps ih =>
    obtain ⟨mid, hmid, hrest⟩ := setAll_cons.1 hall
    exact ih (sound_update h hmid) hrest

/-! ## Environments -/

/-- A message can be generated from the environment if the group to emit is there. -/
structure Environment.Sound (env : Environment) : Prop where
  /-- There is a generator, whose bounds are not negative. -/
  generator : ∃ g, env.generator = some g ∧ g.Sound
  /-- Groups stand under their names. -/
  keys : ∀ entry ∈ env.groups, entry.1 = entry.2.name
  /-- Content can be drawn from the definitions of all fields. -/
  fields : ∀ entry ∈ env.groups, ∀ f ∈ entry.2.fields, f.definition.Sound

/-- What a group declares is stated by the program. -/
theorem Outline.statement_mem {o : Outline} {t : GroupOutline} {d : Declaration}
    (ht : t ∈ o.groups) (hd : d ∈ t.declarations) : d.statement ∈ o.statements := by
  obtain ⟨item, hitem, heq⟩ := List.mem_filterMap.1 hd
  cases item with
  | selection s => cases heq
  | declaration d' =>
    cases heq
    have hbody : d.statement ∈ t.body.flatMap BodyItem.statements :=
      List.mem_flatMap.2 ⟨_, hitem, List.mem_singleton.2 rfl⟩
    have hgroup : d.statement ∈ t.statements :=
      List.mem_cons_of_mem _ (List.mem_append_left _ hbody)
    exact List.mem_append_left _ (List.mem_flatMap.2 ⟨t, ht, hgroup⟩)

/-- What is declared in a text is sound at the start. -/
theorem Declaration.sound {d : Declaration} {start : FieldDefinition}
    (hd : d.statement.Spellable) (h : d.content.definition = .ok start) : start.Sound := by
  obtain ⟨content, name⟩ := d
  cases content with
  | random kind => exact FieldDefinition.sound_ofTypeName h
  | constant l => exact FieldDefinition.sound_ofLiteral hd.1 h

/-- The environment of a program of spellable statements is sound. -/
theorem sound_of_evaluate {p : Program} {env : Environment} (hp : ∀ s ∈ p.statements, s.Spellable)
    (h : evaluate p = .ok env) : env.Sound := by
  obtain ⟨o, hstatements, -, gs, g, hgs, hg, rfl⟩ :=
    Evaluator.run_finished_iff.1 (evaluate_eq_ok.1 h)
  refine ⟨⟨g, rfl, ?_⟩, ?_, ?_⟩
  · have hstart : Generator.Sound { group := o.generator.group } :=
      ⟨Int.le_refl 0, Int.natCast_nonneg 4096⟩
    exact Generator.sound_setAll hstart hg
  · intro entry hentry
    obtain ⟨group, -, rfl⟩ := List.mem_map.1 hentry
    rfl
  · intro entry hentry f hf
    obtain ⟨group, hgroup, rfl⟩ := List.mem_map.1 hentry
    obtain ⟨t, ht, hmeans⟩ := forall₂_of_mem_right hgs hgroup
    obtain ⟨d, hd, -, start, hstart, hall⟩ := forall₂_of_mem_right hmeans.fields hf
    have hspellable : d.statement.Spellable := by
      apply hp
      rw [← hstatements]
      exact Outline.statement_mem ht hd
    exact FieldDefinition.sound_setAll (Declaration.sound hspellable hstart) hall

/-! ## Texts -/

/-- A program is read whether or not the text is at hand for places. -/
theorem parse_eq_ok_iff {tokens : List Token} (source : Option Text) {p : Program} :
    parse tokens source = .ok p ↔ parse tokens = .ok p := by
  -- The text serves to place an error only.
  unfold parse
  split
  · exact Iff.rfl
  · constructor
    · intro h
      cases h
    · intro h
      cases h

/-- A text within the limit is read as its tokens are. -/
theorem readProgram_eq_ok {source : Text} {limit : Int} {tokens : List Token} {p : Program} :
    readProgram source limit = .ok (tokens, p) ↔ ¬ (0 < limit ∧ limit < source.length) ∧
      lex source = .ok tokens ∧ parse tokens = .ok p := by
  unfold readProgram parseSource
  constructor
  · intro h
    split at h
    · next result hparse =>
      cases h
      split at hparse
      · cases hparse
      · next hlimit =>
        split at hparse
        · cases hparse
        · next tokens' hlex =>
          split at hparse
          · cases hparse
          · next p' hp =>
            cases hparse
            exact ⟨hlimit, hlex, (parse_eq_ok_iff _).1 hp⟩
    · cases h
    · cases h
  · rintro ⟨hlimit, hlex, hp⟩
    rw [if_neg hlimit, hlex]
    dsimp only
    rw [(parse_eq_ok_iff (some source)).2 hp]

/-- The environment of a text that is not too long is that of its program. -/
theorem compile_eq_ok {source : Text} {limit : Int} {env : Environment} :
    (compile source limit).1 = .ok env ↔ ¬ (0 < limit ∧ limit < source.length) ∧
      ∃ p : Program, p.ReadFrom source ∧ evaluate p = .ok env := by
  unfold compile
  constructor
  · intro h
    split at h
    · cases h
    · next tokens p hread =>
      obtain ⟨hlimit, hlex, hparse⟩ := readProgram_eq_ok.1 hread
      refine ⟨hlimit, p, ⟨tokens, hlex, hparse⟩, ?_⟩
      cases heval : evaluate p with
      | error e =>
        rw [heval] at h
        cases h
      | ok env' =>
        rw [heval] at h
        cases h
        rfl
  · rintro ⟨hlimit, p, ⟨tokens, hlex, hparse⟩, heval⟩
    rw [readProgram_eq_ok.2 ⟨hlimit, hlex, hparse⟩]
    dsimp only
    rw [heval]
    rfl

/-- The environment of a text is sound. -/
theorem sound_of_compile {source : Text} {limit : Int} {env : Environment}
    (h : (compile source limit).1 = .ok env) : env.Sound := by
  obtain ⟨-, p, hread, heval⟩ := compile_eq_ok.1 h
  exact sound_of_evaluate hread.spellable heval

end ByteLayout
