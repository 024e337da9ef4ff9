import ByteLayout.Diagnostic.Report
import ByteLayout.Proofs.Cutting
import ByteLayout.Proofs.Decomposition

/-!
# Tokens behind the end of the input

A program is read up to the first token that ends the input. The tokens of a text hold one such
token, which is the last one; tokens that come from elsewhere may hold none, or several of them.
`UsesUp` says that a program accounts for tokens: they are forms and one end of the input.

`parse_reads_front`: what is read as a program is a front of the tokens. It is all of them only if
no token before the last one ends the input, as it is with the tokens of a text.
-/

namespace ByteLayout

open Grammar

variable {ts us : List Token} {p : Program}

/-- A program uses up tokens: they are forms, one after the other, and then one end of the input,
and the program holds the statements of the forms and one end. -/
inductive UsesUp : Program → List Token → Prop
  /-- The forms, what they stand for, and the end. -/
  | mk {pieces : List (Form × List Token)} {us : List Token} {stop : Token}
      {sss : List (List Statement)} (forms : Decomposes pieces us)
      (statements : List.Forall₂ Expands (pieces.map (·.1)) sss)
      (stops : stop.kind = .endOfInput) : UsesUp ⟨sss.flatten ++ [.run]⟩ (us ++ [stop])

/-- A form stands for its statements only. -/
theorem Grammar.Expands.eq_statements {f : Form} {ss : List Statement} (h : Expands f ss) :
    ss = f.statements := by
  cases h <;> rfl

/-- Tokens are used up by the program of their forms. -/
theorem usesUp_iff : UsesUp p ts ↔ ∃ pieces us stop, ts = us ++ [stop] ∧
    stop.kind = .endOfInput ∧ Decomposes pieces us ∧ p = .ofForms (pieces.map (·.1)) := by
  constructor
  · rintro ⟨hd, hss, hstop⟩
    refine ⟨_, _, _, rfl, hstop, hd, ?_⟩
    have hmap := hss.imp fun _ _ h => h.eq_statements.symm
    rw [← List.forall₂_map_left_iff, List.forall₂_eq_eq_eq] at hmap
    rw [Program.ofForms, List.flatMap_def, hmap]
  · rintro ⟨pieces, us, stop, rfl, hstop, hd, rfl⟩
    rw [Program.ofForms, List.flatMap_def]
    exact .mk hd (forall₂_expands _) hstop

/-- Of the tokens that a program uses up, the last one alone ends the input. -/
theorem UsesUp.ends (h : UsesUp p ts) : ∃ us stop, ts = us ++ [stop] ∧
    stop.kind = .endOfInput ∧ ∀ t ∈ us, t.kind ≠ .endOfInput := by
  obtain ⟨hd, -, hstop⟩ := h
  exact ⟨_, _, rfl, hstop, hd.kind_ne⟩

/-- Nothing is behind the tokens that a program uses up, if an end of the input is behind all
others. -/
theorem UsesUp.behind_eq_nil {behind : List Token} (h : UsesUp p us)
    (hends : ∀ t ∈ (us ++ behind).dropLast, t.kind ≠ .endOfInput) : behind = [] := by
  obtain ⟨vs, stop, rfl, hstop, -⟩ := h.ends
  by_contra hbehind
  rw [List.dropLast_append_of_ne_nil hbehind] at hends
  exact hends stop (by simp) hstop

/-- Tokens are read as a program exactly if it uses up a front of them. -/
theorem parse_eq_ok {source : Option Text} : parse ts source = .ok p ↔
    ∃ front behind, ts = front ++ behind ∧ UsesUp p front := by
  constructor
  · intro h
    obtain ⟨pieces, us, stop, behind, rfl, hstop, hd, rfl⟩ := decomposes_of_parse h
    exact ⟨us ++ [stop], behind, by simp, usesUp_iff.2 ⟨pieces, us, stop, rfl, hstop, hd, rfl⟩⟩
  · rintro ⟨front, behind, rfl, h⟩
    obtain ⟨pieces, us, stop, rfl, hstop, hd, rfl⟩ := usesUp_iff.1 h
    rw [List.append_assoc, List.singleton_append]
    exact parse_of_decomposes source hd hstop

/-- The report of tokens that are no program is that of a failed reading. -/
theorem kind_of_parse_eq_error {source : Option Text} {e : ParseError}
    (h : parse ts source = .error e) : (Report.ofParseError e).kind = .parse := by
  obtain ⟨left, -, rfl⟩ := parse_eq_error h
  cases left <;> rfl

/-- No token before the last one of a text ends the input. -/
theorem kind_ne_of_lex {text : Text} (h : lex text = .ok ts) :
    ∀ t ∈ ts.dropLast, t.kind ≠ .endOfInput := by
  obtain ⟨us, rfl, hus⟩ := (lex_iff_cut.1 h).ends
  rwa [List.dropLast_concat]

/-- Tokens are read as a program exactly if it uses up a front of them, whatever is behind. If no
program does, as where no token ends the input, they are refused as tokens that are no program. What
is read uses up all tokens exactly if none before the last one ends the input, and the tokens of a
text are read as a program exactly if it uses up all of them. -/
theorem parse_reads_front (ts : List Token) (source : Option Text) :
    (∀ p, parse ts source = .ok p ↔ ∃ front behind, ts = front ++ behind ∧ UsesUp p front) ∧
    ((∀ p front behind, ts = front ++ behind → ¬ UsesUp p front) →
      ∃ e, parse ts source = .error e ∧ (Report.ofParseError e).kind = .parse) ∧
    ((∀ t ∈ ts, t.kind ≠ .endOfInput) → ∀ p front behind, ts = front ++ behind → ¬ UsesUp p front) ∧
    (∀ p, parse ts source = .ok p →
      (UsesUp p ts ↔ ∀ t ∈ ts.dropLast, t.kind ≠ .endOfInput)) ∧
    ∀ text, lex text = .ok ts → ∀ p, parse ts source = .ok p ↔ UsesUp p ts := by
  have hall : ∀ p, parse ts source = .ok p →
      (UsesUp p ts ↔ ∀ t ∈ ts.dropLast, t.kind ≠ .endOfInput) := by
    refine fun p h => ⟨fun hp => ?_, fun hends => ?_⟩
    · obtain ⟨us, stop, rfl, -, hus⟩ := hp.ends
      rwa [List.dropLast_concat]
    · obtain ⟨front, behind, rfl, hfront⟩ := parse_eq_ok.1 h
      obtain rfl := hfront.behind_eq_nil hends
      rwa [List.append_nil]
  refine ⟨fun p => parse_eq_ok, fun hnone => ?_, ?_, hall,
    fun text hlex p => ⟨fun h => ?_, fun h => ?_⟩⟩
  · cases hparse : parse ts source with
    | ok p =>
      obtain ⟨front, behind, hsplit, hfront⟩ := parse_eq_ok.1 hparse
      exact absurd hfront (hnone p front behind hsplit)
    | error e => exact ⟨e, rfl, kind_of_parse_eq_error hparse⟩
  · rintro hends p front behind rfl h
    obtain ⟨us, stop, rfl, hstop, -⟩ := h.ends
    exact hends stop (by simp) hstop
  · exact (hall p h).2 (kind_ne_of_lex hlex)
  · exact parse_eq_ok.2 ⟨ts, [], (List.append_nil ts).symm, h⟩

/-- An end of the input and the first word of a group. -/
def endThenDefine : List Token :=
  [{ kind := .endOfInput }, { kind := .defineWord }]

/-- These tokens are read as the program without a group, though no program uses them up: the last
one does not end the input. -/
theorem endThenDefine_read : parse endThenDefine = .ok ⟨[.run]⟩ ∧
    (∀ t ∈ endThenDefine.getLast?, t.kind ≠ .endOfInput) ∧ ∀ p, ¬ UsesUp p endThenDefine := by
  have hlast : ∀ t ∈ endThenDefine.getLast?, t.kind ≠ .endOfInput := by decide
  refine ⟨by decide +kernel, hlast, fun p h => ?_⟩
  obtain ⟨us, stop, heq, hstop, -⟩ := h.ends
  exact hlast stop (by rw [heq, List.getLast?_concat]; rfl) hstop

end ByteLayout
