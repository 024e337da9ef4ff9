import Mathlib.Data.List.Chain
import ByteLayout.Proofs.Outline
import ByteLayout.Proofs.Stepping

/-!
# Outlines that grow

What becomes of an outline of a group when one part is added at its end: a declaration, a selection,
a clause of the last selection, or a section. For each part one lemma says when the longer outline
is well formed, and one what it stands for.
-/

namespace ByteLayout

variable {g g' : Group} {name n m : Text} {body : List BodyItem} {selections : List Selection}
  {d : Declaration} {cs : List Clause} {c : Clause}

/-! ## Well formed outlines -/

namespace GroupOutline

/-- The fields that a group selects are declared in it. -/
theorem WellFormed.selected_mem {t : GroupOutline} (h : t.WellFormed) {s : Selection}
    (hs : s ∈ t.selections) : s.name ∈ aliases t.body := by
  rcases List.mem_append.1 hs with hs | hs
  · obtain ⟨item, hitem, hs⟩ := List.mem_filterMap.1 hs
    cases item with
    | declaration d => cases hs
    | selection s' =>
      cases hs
      obtain ⟨before, after, heq⟩ := List.append_of_mem hitem
      have hin := h.declared before s ⟨after, by simp [heq]⟩
      rw [heq]
      simp only [aliases, List.filterMap_append, List.mem_append] at hin ⊢
      exact .inl hin
  · exact h.sectionDeclared s hs

/-- A declaration needs a name that is new. -/
theorem wellFormed_declare : WellFormed ⟨n, body ++ [.declaration d], none⟩ ↔
    WellFormed ⟨n, body, none⟩ ∧ ∀ a ∈ d.name, a ∉ aliases body := by
  have haliases : aliases (body ++ [.declaration d]) = aliases body ++ d.name.toList := by
    cases hd : d.name <;> simp [aliases, BodyItem.declaration?, hd]
  constructor
  · rintro ⟨hapart, -, hnodup, hdeclared, -⟩
    rw [haliases, List.nodup_append] at hnodup
    refine ⟨⟨(List.isChain_append.1 hapart).1, by simp, hnodup.1, ?_, by simp⟩, ?_⟩
    · exact fun before s hs => hdeclared before s (List.prefix_concat_iff.2 (.inr hs))
    · intro a ha hin
      exact hnodup.2.2 a hin a (by simpa using ha) rfl
  · rintro ⟨⟨hapart, -, hnodup, hdeclared, -⟩, hfresh⟩
    refine ⟨?_, by simp, ?_, ?_, by simp⟩
    · rw [List.isChain_append]
      refine ⟨hapart, List.isChain_singleton _, ?_⟩
      rintro x - y hy
      cases hy
      exact .inr rfl
    · rw [haliases, List.nodup_append]
      refine ⟨hnodup, by cases d.name <;> simp, ?_⟩
      rintro a ha b hb rfl
      exact hfresh a (by simpa using hb) ha
    · intro before s hs
      rcases List.prefix_concat_iff.1 hs with heq | hs
      · have hlast := (List.append_inj' heq rfl).2
        cases hlast
      · exact hdeclared before s hs

/-- A selection needs a name that is there, and no selection right before it. -/
theorem wellFormed_select : WellFormed ⟨n, body ++ [.selection ⟨m, cs⟩], none⟩ ↔
    WellFormed ⟨n, body, none⟩ ∧ (∀ item ∈ body.getLast?, item.selection? = none) ∧
      m ∈ aliases body := by
  have haliases : aliases (body ++ [.selection ⟨m, cs⟩]) = aliases body := by
    simp [aliases, BodyItem.declaration?]
  constructor
  · rintro ⟨hapart, -, hnodup, hdeclared, -⟩
    rw [haliases] at hnodup
    obtain ⟨hchain, -, hlast⟩ := List.isChain_append.1 hapart
    refine ⟨⟨hchain, by simp, hnodup, ?_, by simp⟩, ?_, ?_⟩
    · exact fun before s hs => hdeclared before s (List.prefix_concat_iff.2 (.inr hs))
    · intro item hitem
      rcases hlast item hitem _ rfl with h | h
      · exact Option.isNone_iff_eq_none.1 h
      · cases h
    · exact hdeclared body ⟨m, cs⟩ List.prefix_rfl
  · rintro ⟨⟨hapart, -, hnodup, hdeclared, -⟩, hlast, hm⟩
    refine ⟨?_, by simp, by rwa [haliases], ?_, by simp⟩
    · rw [List.isChain_append]
      refine ⟨hapart, List.isChain_singleton _, ?_⟩
      intro x hx y _
      exact .inl (Option.isNone_iff_eq_none.2 (hlast x hx))
    · intro before s hs
      rcases List.prefix_concat_iff.1 hs with heq | hs
      · obtain ⟨rfl, hitem⟩ := List.append_inj' heq rfl
        cases hitem
        exact hm
      · exact hdeclared before s hs

/-- A section needs a group that does not end with a selection. -/
theorem wellFormed_section : WellFormed ⟨n, body, some []⟩ ↔
    WellFormed ⟨n, body, none⟩ ∧ ∀ item ∈ body.getLast?, item.selection? = none := by
  constructor
  · rintro ⟨hapart, hlast, hnodup, hdeclared, -⟩
    exact ⟨⟨hapart, by simp, hnodup, hdeclared, by simp⟩, hlast rfl⟩
  · rintro ⟨⟨hapart, -, hnodup, hdeclared, -⟩, hlast⟩
    exact ⟨hapart, fun _ => hlast, hnodup, hdeclared, by simp⟩

/-- A selection of a section needs a name that is there. -/
theorem wellFormed_sectionSelect : WellFormed ⟨n, body, some (selections ++ [⟨m, cs⟩])⟩ ↔
    WellFormed ⟨n, body, some selections⟩ ∧ m ∈ aliases body := by
  constructor
  · rintro ⟨hapart, hlast, hnodup, hdeclared, hall⟩
    simp only [Option.getD_some, List.forall_mem_append, List.forall_mem_singleton] at hall
    exact ⟨⟨hapart, hlast, hnodup, hdeclared, hall.1⟩, hall.2⟩
  · rintro ⟨⟨hapart, hlast, hnodup, hdeclared, hall⟩, hm⟩
    refine ⟨hapart, hlast, hnodup, hdeclared, ?_⟩
    simp only [Option.getD_some, List.forall_mem_append, List.forall_mem_singleton]
    exact ⟨hall, hm⟩

end GroupOutline

/-! ## What they stand for -/

namespace GroupOutline

variable {t t' : GroupOutline}

/-- The names of a group's fields are those that its outline declares. -/
theorem Means.mem_names (h : t.Means g) : some name ∈ g.fields.map Field.name ↔
    name ∈ aliases t.body := by
  rw [names_of_means h.fields]
  simp [aliases, declarations, List.mem_map, List.mem_filterMap]

/-- A group with a declaration more means the group with the field more. -/
theorem means_declare (hfresh : ∀ a ∈ d.name, a ∉ aliases body)
    (hwf : WellFormed ⟨n, body, none⟩) : Means ⟨n, body ++ [.declaration d], none⟩ g' ↔
      ∃ g, Means ⟨n, body, none⟩ g ∧
        ∃ start, d.content.definition = .ok start ∧ g.addField ⟨start, d.name⟩ = .ok g' := by
  have hfree : ∀ s ∈ selections ⟨n, body, none⟩, some s.name ≠ d.name := by
    intro s hs heq
    exact hfresh s.name heq.symm (hwf.selected_mem hs)
  have hselections : selections ⟨n, body ++ [.declaration d], none⟩ =
      selections ⟨n, body, none⟩ := by
    simp [selections, BodyItem.selection?]
  have hdeclarations : declarations ⟨n, body ++ [.declaration d], none⟩ =
      declarations ⟨n, body, none⟩ ++ [d] := by
    simp [declarations, BodyItem.declaration?]
  constructor
  · rintro ⟨hname, hall⟩
    rw [hselections, hdeclarations, fieldsMean_declare hfree] at hall
    obtain ⟨fs, hfs, start, hstart, heq⟩ := hall
    have hmeans : Means ⟨n, body, none⟩ ⟨n, fs⟩ := ⟨rfl, hfs⟩
    refine ⟨⟨n, fs⟩, hmeans, start, hstart, Group.addField_eq_ok.2 ⟨fun a ha hin => ?_, ?_⟩⟩
    · exact hfresh a ha (hmeans.mem_names.1 hin)
    · cases g'
      cases hname
      cases heq
      rfl
  · rintro ⟨g, hmeans, start, hstart, hadd⟩
    obtain ⟨-, rfl⟩ := Group.addField_eq_ok.1 hadd
    refine ⟨hmeans.name, ?_⟩
    rw [hselections, hdeclarations, fieldsMean_declare hfree]
    exact ⟨g.fields, hmeans.fields, start, hstart, rfl⟩

/-- A selection without clauses adds nothing to what an outline means. -/
theorem means_select (hname : t'.name = t.name) (hd : t'.declarations = t.declarations)
    (hs : t'.selections = t.selections ++ [⟨m, []⟩]) : t'.Means g ↔ t.Means g := by
  constructor
  · rintro ⟨hg, hall⟩
    rw [hd, hs, fieldsMean_select] at hall
    exact ⟨hg.trans hname, hall⟩
  · rintro ⟨hg, hall⟩
    refine ⟨hg.trans hname.symm, ?_⟩
    rw [hd, hs, fieldsMean_select]
    exact hall

/-- One clause more in the last selection is set on the selected field. -/
theorem means_clause (hname : t'.name = t.name) (hd : t'.declarations = t.declarations)
    (ht : t.selections = selections ++ [⟨m, cs⟩])
    (ht' : t'.selections = selections ++ [⟨m, cs ++ [c]⟩]) (hnodup : (aliases t.body).Nodup)
    (hm : m ∈ aliases t.body) :
    t'.Means g' ↔ ∃ g, t.Means g ∧ g.updateField m c.attr c.argument = .ok g' := by
  replace hnodup : (t.declarations.filterMap Declaration.name).Nodup := hnodup
  replace hm : m ∈ t.declarations.filterMap Declaration.name := hm
  constructor
  · rintro ⟨hg, hall⟩
    rw [hd, ht', fieldsMean_clause hnodup hm, ← ht] at hall
    obtain ⟨fs, hfs, f, d', hfind, hd', heq⟩ := hall
    refine ⟨⟨t.name, fs⟩, ⟨rfl, hfs⟩, Group.updateField_eq_ok.2 ⟨f, d', hfind, hd', ?_⟩⟩
    cases g'
    cases hg.trans hname
    cases heq
    rfl
  · rintro ⟨g, ⟨hg, hall⟩, hupdate⟩
    obtain ⟨f, d', hfind, hd', rfl⟩ := Group.updateField_eq_ok.1 hupdate
    refine ⟨hg.trans hname.symm, ?_⟩
    rw [hd, ht', fieldsMean_clause hnodup hm, ← ht]
    exact ⟨g.fields, hall, f, d', hfind, hd', rfl⟩

end GroupOutline

end ByteLayout
