import Mathlib.Data.List.Nodup
import ByteLayout.Generation
import ByteLayout.Proofs.Sections

/-!
# Groups that no message depends on

A message is that of one group. `generate_withSections`: when other sections of a program are
deleted, and those that are left are put in any order, the program is still evaluated; its generator
and the groups that are left are the same, and so is every message with all that is drawn for it.

Nothing leaks from one section into another because an outline means its groups one by one
(`exists_groups_of_subperm`), and a message is generated from nothing else than the generator and
the group that is found under its name (`generate_of_group?_eq`).
-/

namespace ByteLayout

variable {p : Program} {env env' : Environment} {gs gs' : List Group} {g : Group} {name : Text}
  {generator : Generator}

/-! ## Groups under their names -/

/-- The environment at the end of a program. -/
def Environment.ofGroups (gs : List Group) (generator : Generator) : Environment :=
  ⟨keyed gs, some generator, none, none⟩

/-- Groups of different names are found under their names. -/
theorem group?_ofGroups (h : (gs.map Group.name).Nodup) :
    (Environment.ofGroups gs generator).group? name = some g ↔ g ∈ gs ∧ g.name = name := by
  have hkeys : ((Environment.ofGroups gs generator).groups.map Prod.fst).Nodup := by
    rwa [Environment.ofGroups, keyed, List.map_map]
  rw [Environment.group?_eq_some hkeys, Environment.ofGroups, keyed, List.mem_map]
  constructor
  · rintro ⟨g', hg', heq⟩
    cases heq
    exact ⟨hg', rfl⟩
  · rintro ⟨hg, rfl⟩
    exact ⟨g, hg, rfl⟩

/-- Groups that are left of others are found as before, if those of the name are left. -/
theorem group?_of_subperm (h : (gs.map Group.name).Nodup) (hgs : gs'.Subperm gs)
    (hleft : ∀ g ∈ gs, g.name = name → g ∈ gs') :
    (Environment.ofGroups gs' generator).group? name =
      (Environment.ofGroups gs generator).group? name := by
  have h' : (gs'.map Group.name).Nodup := nodup_of_subperm (subperm_map _ hgs) h
  apply Option.ext
  intro g
  rw [group?_ofGroups h, group?_ofGroups h']
  constructor
  · rintro ⟨hg, hname⟩
    exact ⟨hgs.subset hg, hname⟩
  · rintro ⟨hg, hname⟩
    exact ⟨hleft g hg hname, hname⟩

/-- A message depends on the generator and on the group to emit, and on nothing else. -/
theorem generate_of_group?_eq {σ : Type} (hgenerator : env'.generator = env.generator)
    (hgroup : ∀ g ∈ env.generator, env'.group? g.group = env.group? g.group)
    (source : RandomSource σ) (appendTerminator : Bool) (s : Session σ) :
    generate source appendTerminator env' s = generate source appendTerminator env s := by
  have htarget : env'.target = env.target := by
    unfold Environment.target Environment.getGenerator Environment.group
    rw [hgenerator]
    cases hg : env.generator with
    | none => rfl
    | some g =>
      dsimp only
      rw [hgroup g hg]
  unfold generate
  rw [htarget]

/-! ## Sections that are left -/

variable {o : Outline} {ts : List GroupSection} {us : List GroupOutline}

/-- Sections that are left of a program are groups of its outline, and they stand for groups of its
environment. -/
theorem exists_groups_of_subperm (hstatements : o.statements = p.statements)
    (hgs : List.Forall₂ GroupOutline.Means o.groups gs) (hts : ts.Subperm p.sections) :
    ∃ us gs', us.Subperm o.groups ∧ us.map GroupOutline.written = ts ∧ gs'.Subperm gs ∧
      List.Forall₂ GroupOutline.Means us gs' := by
  rw [sections_outline hstatements] at hts
  obtain ⟨us, hus, hwritten⟩ := exists_subperm_of_map hts
  obtain ⟨gs', hgs', hmeans⟩ := exists_subperm_of_forall₂ hgs hus
  exact ⟨us, gs', hus, hwritten, hgs', hmeans⟩

/-- Where the sections of a name are left, so are the groups of the name. -/
theorem mem_of_section_left (hstatements : o.statements = p.statements)
    (hgs : List.Forall₂ GroupOutline.Means o.groups gs) (hnodup : (gs.map Group.name).Nodup)
    (hsub : gs'.Subperm gs) (hmeans : List.Forall₂ GroupOutline.Means us gs')
    (hleft : ∀ t ∈ p.sections, t.name = name → t ∈ us.map GroupOutline.written) :
    ∀ g ∈ gs, g.name = name → g ∈ gs' := by
  intro g hg hname
  obtain ⟨t, ht, htg⟩ := forall₂_of_mem_right hgs hg
  have hsection : t.written ∈ p.sections := by
    rw [sections_outline hstatements]
    exact List.mem_map_of_mem ht
  obtain ⟨u, hu, heq⟩ := List.mem_map.1 (hleft _ hsection (htg.name.symm.trans hname))
  obtain ⟨g', hg', hug'⟩ := forall₂_of_mem_left hmeans hu
  have hsame : g'.name = g.name :=
    hug'.name.trans ((congrArg GroupSection.name heq).trans htg.name.symm)
  -- No other group has the name.
  rwa [← List.inj_on_of_nodup_map hnodup (hsub.subset hg') hg hsame]

/-- Some sections of an evaluated program are left, in any order, and among them that of the group
to emit if there is one. They are evaluated with the same generator to the same groups, and every
source is asked for the same and gives the same message, or the same error. -/
theorem generate_withSections (h : evaluate p = .ok env) (hts : ts.Subperm p.sections)
    (hne : ts ≠ []) (htarget : ∀ g ∈ env.generator, ∀ t ∈ p.sections, t.name = g.group → t ∈ ts) :
    p.withSections p.sections = p ∧
      ∃ env', evaluate (p.withSections ts) = .ok env' ∧ env'.generator = env.generator ∧
        env'.groups.map Prod.fst = ts.map GroupSection.name ∧
        (∀ t ∈ ts, ∃ g, env.group? t.name = some g ∧ env'.group? t.name = some g) ∧
        ∀ (σ : Type) (source : RandomSource σ) (appendTerminator : Bool) (s : Session σ),
          generate source appendTerminator env' s = generate source appendTerminator env s := by
  refine ⟨withSections_sections h, ?_⟩
  obtain ⟨o, hstatements, hwf, gs, generator, hgs, hgenerator, rfl⟩ :=
    Evaluator.run_finished_iff.1 (evaluate_eq_ok.1 h)
  obtain ⟨us, gs', hus, rfl, hgs', hmeans⟩ := exists_groups_of_subperm hstatements hgs hts
  have hnames : (us.map GroupOutline.name).Nodup := nodup_of_subperm (subperm_map _ hus) hwf.nodup
  have hkeys : (gs.map Group.name).Nodup := names_of_groups hgs ▸ hwf.nodup
  have hkeys' : (gs'.map Group.name).Nodup := names_of_groups hmeans ▸ hnames
  have hwf' : Outline.WellFormed ⟨us, o.generator⟩ := by
    refine ⟨?_, fun u hu => hwf.groups u (hus.subset hu), hnames⟩
    rintro rfl
    exact hne rfl
  have hemitted : (Environment.ofGroups gs' generator).group? generator.group =
      (Environment.ofGroups gs generator).group? generator.group :=
    group?_of_subperm hkeys hgs'
      (mem_of_section_left hstatements hgs hkeys hgs' hmeans (htarget generator rfl))
  refine ⟨.ofGroups gs' generator, ?_, rfl, ?_, ?_, ?_⟩
  · rw [withSections_outline hstatements]
    exact evaluate_eq_ok.2 (Evaluator.run_finished_iff.2
      ⟨⟨us, o.generator⟩, rfl, hwf', gs', generator, hmeans, hgenerator, rfl⟩)
  · rw [Environment.ofGroups, keyed, List.map_map, List.map_map]
    exact names_of_groups hmeans
  · intro t ht
    obtain ⟨u, hu, rfl⟩ := List.mem_map.1 ht
    obtain ⟨g, hg, hug⟩ := forall₂_of_mem_left hmeans hu
    exact ⟨g, (group?_ofGroups hkeys).2 ⟨hgs'.subset hg, hug.name⟩,
      (group?_ofGroups hkeys').2 ⟨hg, hug.name⟩⟩
  · intro σ source appendTerminator s
    apply generate_of_group?_eq
    · rfl
    · intro g hg
      cases hg
      exact hemitted

/-- A program of three groups that use the same name for a field. -/
def sharedNameProgram : Program :=
  ⟨[.startGroup "a", .variableField "u8" (some "n"), .selectField "n",
    .updateField "RANGE" (.group [.literal (.integer 1), .literal (.integer 5)]),
    .startGroup "b", .variableField "string" (some "n"), .constantField (.text "x") none,
    .startFieldsSection, .selectField "n", .updateField "LEN" (.literal (.integer 2)),
    .startGroup "c", .variableField "bytes" (some "n"), .startGenerator "b",
    .setParameter "OUT_MAX" (.literal (.integer 9)), .run]⟩

/-- The last section of this program and the one before it. -/
def lastSections : List GroupSection :=
  [⟨"c", [.variableField "bytes" (some "n")]⟩,
    ⟨"b", [.variableField "string" (some "n"), .constantField (.text "x") none,
      .startFieldsSection, .selectField "n", .updateField "LEN" (.literal (.integer 2))]⟩]

/-- The environment of this program. -/
def sharedNameEnvironment : Environment where
  groups := [("a", ⟨"a", [⟨.textNumber ⟨⟨false, .one⟩, 1, 5⟩ none, some "n"⟩]⟩),
    ("b", ⟨"b", [⟨.text ⟨2, 2⟩, some "n"⟩, ⟨.constant "x", none⟩]⟩),
    ("c", ⟨"c", [⟨.bytes {}, some "n"⟩]⟩)]
  generator := some ⟨"b", 0, 9, []⟩

/-- Two sections of `sharedNameProgram` in another order generate the same. -/
theorem sharedNameProgram_withSections :
    evaluate sharedNameProgram = .ok sharedNameEnvironment ∧
      lastSections.Subperm sharedNameProgram.sections ∧
      ∃ env', evaluate (sharedNameProgram.withSections lastSections) = .ok env' ∧
        env'.groups.map Prod.fst = (["c", "b"] : List Text) ∧
        ∀ s : Session Script, generate Script.source false env' s =
          generate Script.source false sharedNameEnvironment s := by
  have heval : evaluate sharedNameProgram = .ok sharedNameEnvironment := by decide +kernel
  have hsub : lastSections.Subperm sharedNameProgram.sections := by decide +kernel
  have htarget : ∀ g ∈ sharedNameEnvironment.generator, ∀ t ∈ sharedNameProgram.sections,
      t.name = g.group → t ∈ lastSections := by
    decide +kernel
  obtain ⟨-, env', heval', -, hnames, -, hmessage⟩ :=
    generate_withSections heval hsub (List.cons_ne_nil _ _) htarget
  exact ⟨heval, hsub, env', heval', hnames, hmessage Script Script.source false⟩

end ByteLayout
