import ByteLayout.Field.Attribute
import ByteLayout.Generator
import ByteLayout.Proofs.Rendering

/-!
# Accepted arguments

What the attributes of a field and the parameters of a generator make of their arguments. For each
of them one lemma says which arguments are accepted and what they become (`*_eq_ok`), and one with
which code others are refused (`code_of_*`). Two arguments are neither accepted nor refused: a range
whose first bound outside the format is too long to be named by the refusal (`NamesTooLong`), and a
terminator that has no bytes. The lemmas on them end in `unwritable`.

`FieldDefinition.Updates` lists the ways in which an attribute is set, and
`FieldDefinition.UpdateFails` those in which it fails.
-/

namespace ByteLayout

variable {argument value : Expr} {p : Problem} {e : Text.Unwritable}

/-! ## Attributes -/

/-- The problem is that of an attribute or of its arguments. -/
def Problem.OfAttribute (p : Problem) : Prop :=
  p.code = .invalidAttribute ∨ p.code = .expressionInvalid

theorem Problem.OfAttribute.kind (h : p.OfAttribute) :
    p.kind = .grammar ∨ p.kind = .expression := by
  cases p <;> simp_all [OfAttribute, code, Problem.kind]

/-- A problem of syntax is no problem of an attribute. -/
theorem Problem.not_ofAttribute (h : p.code = .syntaxError) : ¬ p.OfAttribute := by
  rintro (hcode | hcode) <;> cases h.symm.trans hcode

/-- Only the literal of an integer is taken for it. -/
theorem Expr.asInteger_eq_ok {e : Expr} {context : Text} {n : Int} :
    e.asInteger context = .ok n ↔ e = .literal (.integer n) := by
  cases e with
  | literal l => cases l <;> simp [asInteger, asLiteral]
  | group items => simp [asInteger, asLiteral]

/-- What is no integer is refused as an expression. -/
theorem Expr.code_of_asInteger {e : Expr} {context : Text}
    (h : e.asInteger context = .error p) : p.code = .expressionInvalid := by
  cases e with
  | literal l =>
    cases l with
    | integer n => cases h
    | text s | bytes bs | reserved name =>
      cases h
      rfl
  | group items =>
    cases h
    rfl

/-- The first of two bounds that lies outside the format is too long to be named. -/
def NumberFormat.NamesTooLong (f : NumberFormat) (lower upper : Int) : Prop :=
  Text.TooLong lower ∨ f.minimum ≤ lower ∧ lower ≤ f.maximum ∧ Text.TooLong upper

/-- A bound that is too long is the error itself. -/
theorem NumberRange.outside_of_tooLong {r : NumberRange} {bound : Int} (h : Text.TooLong bound) :
    r.outside bound = .unwritable .tooManyDigits := by
  rw [outside, Text.writeDecimal_of_tooLong h]

/-- A bound that is not too long is named by the problem. -/
theorem NumberRange.outside_of_not_tooLong {r : NumberRange} {bound : Int}
    (h : ¬ Text.TooLong bound) : r.outside bound = .problem
      (.valueOutOfFormat "RANGE" bound r.format.name r.format.minimum r.format.maximum) := by
  rw [outside, Text.writeDecimal_of_not_tooLong h]

/-- A problem of a bound is one of the attribute. -/
theorem NumberRange.outside_eq_problem {r : NumberRange} {bound : Int}
    (h : r.outside bound = .problem p) : p.code = .invalidAttribute := by
  by_cases hlong : Text.TooLong bound
  · cases (outside_of_tooLong hlong).symm.trans h
  · cases (outside_of_not_tooLong hlong).symm.trans h
    rfl

/-- A bound has no problem exactly if it is too long. -/
theorem NumberRange.outside_eq_unwritable {r : NumberRange} {bound : Int} :
    r.outside bound = .unwritable e ↔ Text.TooLong bound ∧ e = .tooManyDigits := by
  by_cases hlong : Text.TooLong bound
  · simp [outside_of_tooLong hlong, hlong, eq_comm]
  · simp [outside_of_not_tooLong hlong, hlong]

/-- Two bounds are a range if they are in order and inside the format. -/
theorem NumberRange.between_eq_ok {r r' : NumberRange} {lower upper : Int} :
    r.between lower upper = .ok r' ↔ r.format.minimum ≤ lower ∧ lower ≤ upper ∧
      upper ≤ r.format.maximum ∧ r' = { r with min := lower, max := upper } := by
  unfold between
  constructor
  · intro h
    split at h
    · cases h
    · split at h
      · cases h
      · split at h
        · cases h
        · cases h
          exact ⟨by omega, by omega, by omega, rfl⟩
  · rintro ⟨hmin, hle, hmax, rfl⟩
    rw [if_neg (by omega), if_neg (by omega), if_neg (by omega)]

/-- Bounds are refused as an attribute. -/
theorem NumberRange.code_of_between {r : NumberRange} {lower upper : Int}
    (h : r.between lower upper = .error (.problem p)) : p.code = .invalidAttribute := by
  unfold between at h
  split at h
  · exact outside_eq_problem (Except.error.inj h)
  · split at h
    · exact outside_eq_problem (Except.error.inj h)
    · split at h
      · cases h
        rfl
      · cases h

/-- Bounds are neither accepted nor refused if the first one outside is too long. -/
theorem NumberRange.between_eq_unwritable {r : NumberRange} {lower upper : Int} :
    r.between lower upper = .error (.unwritable e) ↔
      r.format.NamesTooLong lower upper ∧ e = .tooManyDigits := by
  have hlower := fun hmin hmax => r.format.not_tooLong (n := lower) hmin hmax
  have hupper := fun hmin hmax => r.format.not_tooLong (n := upper) hmin hmax
  unfold between NumberFormat.NamesTooLong
  split
  · rw [Except.error.injEq, outside_eq_unwritable]
    exact and_congr_left fun _ => ⟨.inl, fun h => h.elim id fun h => absurd h.1 (by omega)⟩
  · next hin =>
    split
    · rw [Except.error.injEq, outside_eq_unwritable]
      exact and_congr_left fun _ => ⟨fun h => .inr ⟨by omega, by omega, h⟩,
        fun h => h.elim (fun h => absurd h (hlower (by omega) (by omega))) fun h => h.2.2⟩
    · have hnone : ¬ (Text.TooLong lower ∨ r.format.minimum ≤ lower ∧
          lower ≤ r.format.maximum ∧ Text.TooLong upper) := fun h =>
        h.elim (hlower (by omega) (by omega)) fun h => hupper (by omega) (by omega) h.2.2
      split <;> simp [hnone]

/-- A range takes two integers of the format, the lower one first. -/
theorem NumberRange.ofArgument_eq_ok {r r' : NumberRange} : r.ofArgument argument = .ok r' ↔
    ∃ lower upper, argument = .group [.literal (.integer lower), .literal (.integer upper)] ∧
      r.format.minimum ≤ lower ∧ lower ≤ upper ∧ upper ≤ r.format.maximum ∧
        r' = { r with min := lower, max := upper } := by
  constructor
  · intro h
    unfold ofArgument at h
    split at h
    · obtain ⟨lower, hlower, hrest⟩ := Except.bind_eq_ok.1 h
      obtain ⟨upper, hupper, hbetween⟩ := Except.bind_eq_ok.1 hrest
      obtain rfl := Expr.asInteger_eq_ok.1 (Except.mapError_eq_ok.1 hlower)
      obtain rfl := Expr.asInteger_eq_ok.1 (Except.mapError_eq_ok.1 hupper)
      exact ⟨lower, upper, rfl, between_eq_ok.1 hbetween⟩
    · cases h
  · rintro ⟨lower, upper, rfl, hrange⟩
    exact between_eq_ok.2 hrange

/-- Other arguments of a range are not two, or one of them is no integer, or they are no bounds. -/
theorem NumberRange.ofArgument_eq_error {r : NumberRange} {error : UpdateError}
    (h : r.ofArgument argument = .error error) :
    error = .problem (.invalidAttributeValue "RANGE" rangeUsage "expects exactly 2 values") ∨
      (∃ items item q, argument = .group items ∧ item ∈ items ∧
        item.asInteger rangeUsage = .error q ∧ error = .problem q) ∨
      ∃ lower upper, argument = .group [.literal (.integer lower), .literal (.integer upper)] ∧
        r.between lower upper = .error error := by
  unfold ofArgument at h
  split at h
  · rcases Except.bind_eq_error.1 h with h | ⟨lower, hlower, h⟩
    · obtain ⟨q, hq, rfl⟩ := Except.mapError_eq_error.1 h
      exact .inr (.inl ⟨_, _, q, rfl, by simp, hq, rfl⟩)
    · rcases Except.bind_eq_error.1 h with h | ⟨upper, hupper, h⟩
      · obtain ⟨q, hq, rfl⟩ := Except.mapError_eq_error.1 h
        exact .inr (.inl ⟨_, _, q, rfl, by simp, hq, rfl⟩)
      · obtain rfl := Expr.asInteger_eq_ok.1 (Except.mapError_eq_ok.1 hlower)
        obtain rfl := Expr.asInteger_eq_ok.1 (Except.mapError_eq_ok.1 hupper)
        exact .inr (.inr ⟨lower, upper, rfl, h⟩)
  · cases h
    exact .inl rfl

/-- Other arguments of a range are refused. -/
theorem NumberRange.code_of_ofArgument {r : NumberRange}
    (h : r.ofArgument argument = .error (.problem p)) : p.OfAttribute := by
  obtain ⟨⟨⟩⟩ | ⟨items, item, q, -, -, hq, ⟨⟩⟩ | ⟨lower, upper, -, h⟩ := ofArgument_eq_error h
  · exact .inl rfl
  · exact .inr (Expr.code_of_asInteger hq)
  · exact .inl (code_of_between h)

/-- The argument of a range is neither accepted nor refused if it names a bound that is too long. -/
theorem NumberRange.ofArgument_eq_unwritable {r : NumberRange} :
    r.ofArgument argument = .error (.unwritable e) ↔
      (∃ lower upper, argument = .group [.literal (.integer lower), .literal (.integer upper)] ∧
        r.format.NamesTooLong lower upper) ∧ e = .tooManyDigits := by
  constructor
  · intro h
    obtain ⟨⟨⟩⟩ | ⟨items, item, q, -, -, -, ⟨⟩⟩ | ⟨lower, upper, rfl, h⟩ :=
      ofArgument_eq_error h
    obtain ⟨hlong, rfl⟩ := between_eq_unwritable.1 h
    exact ⟨⟨lower, upper, rfl, hlong⟩, rfl⟩
  · rintro ⟨⟨lower, upper, rfl, hlong⟩, rfl⟩
    exact between_eq_unwritable.2 ⟨hlong, rfl⟩

/-- A length takes one number or two in order, none of them negative. -/
theorem LengthBounds.ofArgument_eq_ok {b : LengthBounds} : ofArgument argument = .ok b ↔
    (∃ n, argument = .literal (.integer n) ∧ 0 ≤ n ∧ b = ⟨n, n⟩) ∨
      ∃ lower upper, argument = .group [.literal (.integer lower), .literal (.integer upper)] ∧
        0 ≤ lower ∧ lower ≤ upper ∧ b = ⟨lower, upper⟩ := by
  constructor
  · intro h
    unfold ofArgument at h
    split at h
    · next n =>
      split at h
      · cases h
      · cases h
        exact .inl ⟨n, rfl, by omega, rfl⟩
    · cases h
    · obtain ⟨lower, hlower, hrest⟩ := Except.bind_eq_ok.1 h
      obtain ⟨upper, hupper, hbounds⟩ := Except.bind_eq_ok.1 hrest
      obtain rfl := Expr.asInteger_eq_ok.1 hlower
      obtain rfl := Expr.asInteger_eq_ok.1 hupper
      split at hbounds
      · cases hbounds
      · split at hbounds
        · cases hbounds
        · cases hbounds
          exact .inr ⟨lower, upper, rfl, by omega, by omega, rfl⟩
    · cases h
  · rintro (⟨n, rfl, hn, rfl⟩ | ⟨lower, upper, rfl, hlower, hle, rfl⟩)
    · exact if_neg (by omega)
    · show (if upper < lower then _ else if lower < 0 then _ else _) = _
      rw [if_neg (by omega), if_neg (by omega)]

/-- Other arguments of a length are refused. -/
theorem LengthBounds.code_of_ofArgument (h : ofArgument argument = .error p) :
    p.OfAttribute := by
  unfold ofArgument at h
  split at h
  · split at h
    · cases h
      exact .inl rfl
    · cases h
  · cases h
    exact .inl rfl
  · rcases Except.bind_eq_error.1 h with h | ⟨lower, -, h⟩
    · exact .inr (Expr.code_of_asInteger h)
    · rcases Except.bind_eq_error.1 h with h | ⟨upper, -, h⟩
      · exact .inr (Expr.code_of_asInteger h)
      · split at h
        · cases h
          exact .inl rfl
        · split at h
          · cases h
            exact .inl rfl
          · cases h
  · cases h
    exact .inl rfl

/-- A base has one name. -/
theorem DisplayBase.ofName?_eq_some {name : Text} {base : DisplayBase} :
    ofName? name = some base ↔ base.name = name := by
  constructor
  · intro h
    simpa using List.find?_some h
  · rintro rfl
    exact ofName?_name base

/-- A display takes the name of a base, as a text or as a reserved name, in any case. -/
theorem DisplayBase.ofArgument_eq_ok {base : DisplayBase} : ofArgument argument = .ok base ↔
    ∃ name, (argument = .literal (.text name) ∨ argument = .literal (.reserved name)) ∧
      Text.lower name = base.name := by
  constructor
  · intro h
    unfold ofArgument at h
    split at h
    · cases h
    · next name =>
      split at h
      · next hbase =>
        cases h
        exact ⟨name, .inl rfl, (ofName?_eq_some.1 hbase).symm⟩
      · cases h
    · next name =>
      split at h
      · next hbase =>
        cases h
        exact ⟨name, .inr rfl, (ofName?_eq_some.1 hbase).symm⟩
      · cases h
    · cases h
  · rintro ⟨name, rfl | rfl, hname⟩
    · simp only [ofArgument, ofName?_eq_some.2 hname.symm]
    · simp only [ofArgument, ofName?_eq_some.2 hname.symm]

/-- Other arguments of a display are refused. -/
theorem DisplayBase.code_of_ofArgument (h : ofArgument argument = .error p) :
    p.OfAttribute := by
  unfold ofArgument at h
  split at h
  · cases h
    exact .inl rfl
  · split at h
    · cases h
    · cases h
      exact .inl rfl
  · split at h
    · cases h
    · cases h
      exact .inl rfl
  · cases h
    exact .inl rfl

/-- What an attribute makes of a definition, if it suits the definition and its argument suits the
attribute. -/
inductive FieldDefinition.Updates (argument : Expr) :
    FieldDefinition → Text → FieldDefinition → Prop
  /-- The range of a number as text. -/
  | textRange {range range' : NumberRange} {display : Option DisplayBase}
    (h : range.ofArgument argument = .ok range') :
    Updates argument (textNumber range display) "RANGE" (textNumber range' display)
  /-- The range of a number as bytes. -/
  | byteRange {range range' : NumberRange} {order : ByteOrder}
    (h : range.ofArgument argument = .ok range') :
    Updates argument (byteNumber range order) "RANGE" (byteNumber range' order)
  /-- The display of a number as text. -/
  | format {range : NumberRange} {display : Option DisplayBase} {base : DisplayBase}
    (h : DisplayBase.ofArgument argument = .ok base) :
    Updates argument (textNumber range display) "FORMAT" (textNumber range (some base))
  /-- The length of a random text. -/
  | textLength {length length' : LengthBounds}
    (h : LengthBounds.ofArgument argument = .ok length') :
    Updates argument (text length) "LEN" (text length')
  /-- The length of random bytes. -/
  | bytesLength {length length' : LengthBounds}
    (h : LengthBounds.ofArgument argument = .ok length') :
    Updates argument (bytes length) "LEN" (bytes length')

/-- An attribute is set in one of these ways. -/
theorem FieldDefinition.update_eq_ok_iff_updates {d d' : FieldDefinition} {attr : Text} :
    d.update attr argument = .ok d' ↔ Updates argument d attr d' := by
  constructor
  · intro h
    unfold update at h
    cases d with
    | constant s => cases h
    | textNumber range display =>
      dsimp only at h
      split_ifs at h with hrange hformat
      · subst hrange
        obtain ⟨range', hrange, rfl⟩ := Except.map_eq_ok.1 h
        exact .textRange hrange
      · subst hformat
        obtain ⟨base, hbase, rfl⟩ := Except.map_eq_ok.1 h
        exact .format (Except.mapError_eq_ok.1 hbase)
    | byteNumber range order =>
      dsimp only at h
      split_ifs at h with hrange
      subst hrange
      obtain ⟨range', hrange, rfl⟩ := Except.map_eq_ok.1 h
      exact .byteRange hrange
    | text length =>
      dsimp only at h
      split_ifs at h with hlength
      subst hlength
      obtain ⟨length', hlength, rfl⟩ := Except.map_eq_ok.1 h
      exact .textLength (Except.mapError_eq_ok.1 hlength)
    | bytes length =>
      dsimp only at h
      split_ifs at h with hlength
      subst hlength
      obtain ⟨length', hlength, rfl⟩ := Except.map_eq_ok.1 h
      exact .bytesLength (Except.mapError_eq_ok.1 hlength)
  · intro h
    cases h with
    | textRange h | byteRange h => simp only [update, if_pos, h, Except.map]
    | format h => simp [update, h, Except.mapError, Except.map]
    | textLength h | bytesLength h => simp only [update, if_pos, h, Except.mapError, Except.map]

/-- Why an attribute of a definition is not set. -/
inductive FieldDefinition.UpdateFails (argument : Expr) :
    FieldDefinition → Text → UpdateError → Prop
  /-- Constants have no attributes. -/
  | constant {s attr : Text} :
    UpdateFails argument (constant s) attr (.problem (.attributesNotAllowed (constant s).kindName))
  /-- The definition has no such attribute. -/
  | unsupported {d : FieldDefinition} {attr : Text} :
    UpdateFails argument d attr (.problem (.unsupportedAttribute attr d.kindName))
  /-- The argument is no range of a number as text. -/
  | textRange {range : NumberRange} {display : Option DisplayBase} {error : UpdateError}
    (h : range.ofArgument argument = .error error) :
    UpdateFails argument (textNumber range display) "RANGE" error
  /-- The argument is no range of a number as bytes. -/
  | byteRange {range : NumberRange} {order : ByteOrder} {error : UpdateError}
    (h : range.ofArgument argument = .error error) :
    UpdateFails argument (byteNumber range order) "RANGE" error
  /-- The argument is no display. -/
  | format {range : NumberRange} {display : Option DisplayBase} {p : Problem}
    (h : DisplayBase.ofArgument argument = .error p) :
    UpdateFails argument (textNumber range display) "FORMAT" (.problem p)
  /-- The argument is no length. -/
  | length {d : FieldDefinition} {p : Problem} (h : LengthBounds.ofArgument argument = .error p) :
    UpdateFails argument d "LEN" (.problem p)

/-- An attribute fails for one of these reasons. -/
theorem FieldDefinition.updateFails_of_update {d : FieldDefinition} {attr : Text}
    {error : UpdateError} (h : d.update attr argument = .error error) :
    UpdateFails argument d attr error := by
  unfold update at h
  cases d with
  | constant s =>
    cases h
    exact .constant
  | textNumber range display =>
    dsimp only at h
    split_ifs at h with hrange hformat
    · subst hrange
      exact .textRange (Except.map_eq_error.1 h)
    · subst hformat
      obtain ⟨p, hp, rfl⟩ := Except.mapError_eq_error.1 (Except.map_eq_error.1 h)
      exact .format hp
    · cases h
      exact .unsupported
  | byteNumber range order =>
    dsimp only at h
    split_ifs at h with hrange
    · subst hrange
      exact .byteRange (Except.map_eq_error.1 h)
    · cases h
      exact .unsupported
  | text length | bytes length =>
    dsimp only at h
    split_ifs at h with hlength
    · subst hlength
      obtain ⟨p, hp, rfl⟩ := Except.mapError_eq_error.1 (Except.map_eq_error.1 h)
      exact .length hp
    · cases h
      exact .unsupported

/-- An attribute is refused for its own sake. -/
theorem FieldDefinition.code_of_update {d : FieldDefinition} {attr : Text}
    (h : d.update attr argument = .error (.problem p)) : p.OfAttribute := by
  cases updateFails_of_update h with
  | constant | unsupported => exact .inl rfl
  | textRange h | byteRange h => exact NumberRange.code_of_ofArgument h
  | format h => exact DisplayBase.code_of_ofArgument h
  | length h => exact LengthBounds.code_of_ofArgument h

/-! ## Parameters -/

theorem Problem.kind_of_invalidParameter (h : p.code = .invalidParameter) :
    p.kind = .grammar := by
  cases p <;> simp_all [code, kind]

namespace Generator

/-- A bound of the output takes one number that is not negative. -/
theorem bound_eq_ok {parameter : Parameter} {n : Int} :
    bound parameter value = .ok n ↔ value = .literal (.integer n) ∧ 0 ≤ n := by
  constructor
  · intro h
    unfold bound at h
    split at h
    · split at h
      · cases h
      · cases h
        exact ⟨rfl, by omega⟩
    · cases h
  · rintro ⟨rfl, hn⟩
    exact if_neg (by omega)

/-- Other values of a bound are refused. -/
theorem code_of_bound {parameter : Parameter} (h : bound parameter value = .error (.problem p)) :
    p.code = .invalidParameter := by
  unfold bound at h
  split at h
  · split at h
    · cases h
      rfl
    · cases h
  · cases h
    rfl

/-- A bound on the output is set or refused. -/
theorem bound_ne_unwritable {parameter : Parameter} :
    bound parameter value ≠ .error (.unwritable e) := by
  unfold bound
  split
  · split <;> nofun
  · nofun

/-- A value that is no part of a terminator is refused. -/
theorem code_of_terminatorBytes (h : terminatorBytes value = .error (.problem p)) :
    p.code = .invalidParameter := by
  unfold terminatorBytes at h
  split at h
  · cases h
    rfl
  · split at h
    · cases h
    · cases h
      rfl
  · obtain ⟨e, -, ⟨⟩⟩ := Except.mapError_eq_error.1 h
  · cases h
  · split at h
    · cases h
    · cases h
      rfl

/-- What is neither accepted nor refused as a terminator is a text without bytes. -/
theorem terminatorBytes_eq_unwritable : terminatorBytes value = .error (.unwritable e) ↔
    ∃ s, value = .literal (.text s) ∧ Text.utf8 s = .error e := by
  constructor
  · intro h
    unfold terminatorBytes at h
    split at h
    · cases h
    · split at h <;> cases h
    · next s =>
      obtain ⟨e', he, ⟨⟩⟩ := Except.mapError_eq_error.1 h
      exact ⟨s, rfl, he⟩
    · cases h
    · split at h <;> cases h
  · rintro ⟨s, rfl, hs⟩
    exact Except.mapError_eq_error.2 ⟨e, hs, rfl⟩

/-- A parameter is refused for its own sake. -/
theorem code_of_update {g : Generator} {name : Text}
    (h : g.update name value = .error (.problem p)) : p.code = .invalidParameter := by
  unfold update at h
  split at h
  · exact code_of_bound (Except.map_eq_error.1 h)
  · exact code_of_bound (Except.map_eq_error.1 h)
  · exact code_of_terminatorBytes (Except.map_eq_error.1 h)
  · cases h
    rfl

end Generator

end ByteLayout
