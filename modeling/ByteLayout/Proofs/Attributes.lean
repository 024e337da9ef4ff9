import ByteLayout.Program.Form
import ByteLayout.Proofs.InPlace
import ByteLayout.Proofs.Lists

/-!
# Attributes in any order

A field definition under clauses, any of which may be refused. `FieldDefinition.Accepts` says which
clauses a definition accepts and what each of them sets: the bounds of a range or of a length, or
the base of the display. This is decided by the kind of the definition and by its number format,
which no clause changes, so that what came before a clause does not matter to it.

`FieldDefinition.update_eq_ok`: an accepted clause sets what it says and nothing else.
`FieldDefinition.after_any_clauses`: after any clauses the bounds and the display are those that
were set last, all else is as it was at the start, and the next clause is answered as the first one.
-/

namespace ByteLayout

/-! ## What clauses set -/

/-- What a clause sets of a definition. -/
inductive Setting where
  /-- The bounds of a range or of a length. -/
  | bounds (min max : Int)
  /-- The base of the display. -/
  | display (base : DisplayBase)

namespace FieldDefinition

/-- The format of a number. -/
def format? : FieldDefinition → Option NumberFormat
  | textNumber range _ | byteNumber range _ => some range.format
  | constant _ | text _ | bytes _ => none

/-- Whether numbers are shown as text. -/
def IsTextNumber : FieldDefinition → Prop
  | textNumber .. => True
  | _ => False

/-- Whether the content has a length. -/
def HasLength : FieldDefinition → Prop
  | text _ | bytes _ => True
  | _ => False

/-- The definition accepts the clause, which sets this. -/
inductive Accepts (d : FieldDefinition) : Clause → Setting → Prop
  /-- `RANGE(lower upper)` -/
  | range {f : NumberFormat} {lower upper : Int} (hf : d.format? = some f)
    (hmin : f.minimum ≤ lower) (hle : lower ≤ upper) (hmax : upper ≤ f.maximum) :
    Accepts d ⟨"RANGE", .group [.literal (.integer lower), .literal (.integer upper)]⟩
      (.bounds lower upper)
  /-- `FORMAT(name)` -/
  | format {l : Literal} {name : Text} {base : DisplayBase} (hd : d.IsTextNumber)
    (hl : l = .text name ∨ l = .reserved name) (hname : Text.lower name = base.name) :
    Accepts d ⟨"FORMAT", .literal l⟩ (.display base)
  /-- `LEN(n)` -/
  | length {n : Int} (hd : d.HasLength) (hn : 0 ≤ n) :
    Accepts d ⟨"LEN", .literal (.integer n)⟩ (.bounds n n)
  /-- `LEN(lower upper)` -/
  | lengths {lower upper : Int} (hd : d.HasLength) (hlower : 0 ≤ lower) (hle : lower ≤ upper) :
    Accepts d ⟨"LEN", .group [.literal (.integer lower), .literal (.integer upper)]⟩
      (.bounds lower upper)

/-- The clause is the range of a number, with a first bound outside the format that is too long to
be named. -/
inductive NamesTooLong (d : FieldDefinition) : Clause → Prop
  /-- `RANGE(lower upper)` -/
  | range {f : NumberFormat} {lower upper : Int} (hf : d.format? = some f)
    (hlong : f.NamesTooLong lower upper) :
    NamesTooLong d ⟨"RANGE", .group [.literal (.integer lower), .literal (.integer upper)]⟩

/-- The bounds of a definition. -/
def bounds? : FieldDefinition → Option (Int × Int)
  | constant _ => none
  | textNumber range _ | byteNumber range _ => some (range.min, range.max)
  | text length | bytes length => some (length.min, length.max)

/-- The base of the display, if it is given. -/
def display? : FieldDefinition → Option DisplayBase
  | textNumber _ display => display
  | _ => none

/-- The definitions differ in nothing but their bounds and their display. -/
inductive Alike : FieldDefinition → FieldDefinition → Prop
  /-- Constants of the same text. -/
  | constant {s : Text} : Alike (constant s) (constant s)
  /-- Numbers as text, of the same format. -/
  | textNumber {f : NumberFormat} {min max min' max' : Int}
    {display display' : Option DisplayBase} :
    Alike (textNumber ⟨f, min, max⟩ display) (textNumber ⟨f, min', max'⟩ display')
  /-- Random texts. -/
  | text {length length' : LengthBounds} : Alike (text length) (text length')
  /-- Numbers as bytes, of the same format and order. -/
  | byteNumber {f : NumberFormat} {min max min' max' : Int} {order : ByteOrder} :
    Alike (byteNumber ⟨f, min, max⟩ order) (byteNumber ⟨f, min', max'⟩ order)
  /-- Random bytes. -/
  | bytes {length length' : LengthBounds} : Alike (bytes length) (bytes length')

/-- The definition with something else set. -/
def set : FieldDefinition → Setting → FieldDefinition
  | textNumber range display, .bounds min max => textNumber { range with min, max } display
  | byteNumber range order, .bounds min max => byteNumber { range with min, max } order
  | text _, .bounds min max => text ⟨min, max⟩
  | bytes _, .bounds min max => bytes ⟨min, max⟩
  | textNumber range _, .display base => textNumber range (some base)
  | d, _ => d

/-- The definition after some clauses, those that are refused included. -/
def afterClauses (d : FieldDefinition) (cs : List Clause) : FieldDefinition :=
  cs.foldl (fun d c => ((assign c.attr c.argument).apply d).2) d

variable {d d' : FieldDefinition} {c : Clause} {s : Setting} {attr : Text} {argument : Expr}
  {min max : Int} {base : DisplayBase}

/-! ## One clause -/

/-- An accepted clause sets what it says and nothing else. -/
theorem update_eq_ok :
    d.update attr argument = .ok d' ↔ ∃ s, d.Accepts ⟨attr, argument⟩ s ∧ d' = d.set s := by
  rw [update_eq_ok_iff_updates]
  constructor
  · intro h
    cases h with
    | textRange h | byteRange h =>
      obtain ⟨lower, upper, rfl, hmin, hle, hmax, rfl⟩ := NumberRange.ofArgument_eq_ok.1 h
      exact ⟨_, .range rfl hmin hle hmax, rfl⟩
    | format h =>
      obtain ⟨name, rfl | rfl, hname⟩ := DisplayBase.ofArgument_eq_ok.1 h
      · exact ⟨_, .format trivial (.inl rfl) hname, rfl⟩
      · exact ⟨_, .format trivial (.inr rfl) hname, rfl⟩
    | textLength h | bytesLength h =>
      obtain ⟨n, rfl, hn, rfl⟩ | ⟨lower, upper, rfl, hlower, hle, rfl⟩ :=
        LengthBounds.ofArgument_eq_ok.1 h
      · exact ⟨_, .length trivial hn, rfl⟩
      · exact ⟨_, .lengths trivial hlower hle, rfl⟩
  · rintro ⟨s, h, rfl⟩
    cases h with
    | range hf hmin hle hmax =>
      cases d with
      | constant | text | bytes => cases hf
      | textNumber range display =>
        cases hf
        exact .textRange (NumberRange.ofArgument_eq_ok.2 ⟨_, _, rfl, hmin, hle, hmax, rfl⟩)
      | byteNumber range order =>
        cases hf
        exact .byteRange (NumberRange.ofArgument_eq_ok.2 ⟨_, _, rfl, hmin, hle, hmax, rfl⟩)
    | format hd hl hname =>
      cases d with
      | constant | text | byteNumber | bytes => cases hd
      | textNumber range display =>
        exact .format (DisplayBase.ofArgument_eq_ok.2
          ⟨_, hl.imp (congrArg Expr.literal) (congrArg Expr.literal), hname⟩)
    | length hd hn =>
      have hlength := LengthBounds.ofArgument_eq_ok.2 (.inl ⟨_, rfl, hn, rfl⟩)
      cases d with
      | constant | textNumber | byteNumber => cases hd
      | text => exact .textLength hlength
      | bytes => exact .bytesLength hlength
    | lengths hd hlower hle =>
      have hlength := LengthBounds.ofArgument_eq_ok.2 (.inr ⟨_, _, rfl, hlower, hle, rfl⟩)
      cases d with
      | constant | textNumber | byteNumber => cases hd
      | text => exact .textLength hlength
      | bytes => exact .bytesLength hlength

/-- What is neither accepted nor refused is a range that names a bound too long. -/
theorem update_eq_unwritable {e : Text.Unwritable} :
    d.update attr argument = .error (.unwritable e) ↔
      d.NamesTooLong ⟨attr, argument⟩ ∧ e = .tooManyDigits := by
  constructor
  · intro h
    cases updateFails_of_update h with
    | textRange h | byteRange h =>
      obtain ⟨⟨lower, upper, rfl, hlong⟩, rfl⟩ := NumberRange.ofArgument_eq_unwritable.1 h
      exact ⟨.range rfl hlong, rfl⟩
  · rintro ⟨⟨hf, hlong⟩, rfl⟩
    cases d with
    | constant | text | bytes => cases hf
    | textNumber range display | byteNumber range order =>
      cases hf
      have hrange := NumberRange.ofArgument_eq_unwritable.2 ⟨⟨_, _, rfl, hlong⟩, rfl⟩
      simp only [update, if_pos, hrange, Except.map]

/-- An accepted clause is taken. -/
theorem apply_assign_of_accepts (h : d.Accepts c s) :
    (assign c.attr c.argument).apply d = (.ok (), d.set s) := by
  rw [apply_assign, update_eq_ok.2 ⟨s, h, rfl⟩]
  rfl

/-- A clause is taken, or it fails and leaves the definition as it is. -/
theorem apply_assign_cases (d : FieldDefinition) (c : Clause) :
    (∃ s, d.Accepts c s ∧ (assign c.attr c.argument).apply d = (.ok (), d.set s)) ∨
      (∀ s, ¬ d.Accepts c s) ∧ ∃ e, d.update c.attr c.argument = .error e ∧
        (assign c.attr c.argument).apply d = (.error e, d) := by
  rw [apply_assign]
  exact Edit.allOrNothing_cases (fun _ => update_eq_ok) fun _ => id

/-! ## What no clause changes -/

@[refl] theorem Alike.refl (d : FieldDefinition) : d.Alike d := by
  cases d <;> constructor

theorem Alike.symm (h : d.Alike d') : d'.Alike d := by
  cases h <;> constructor

theorem Alike.trans {d'' : FieldDefinition} (h : d.Alike d') (h' : d'.Alike d'') :
    d.Alike d'' := by
  cases h <;> cases h' <;> constructor

/-- A setting changes nothing but the bounds or the display. -/
theorem alike_set (d : FieldDefinition) (s : Setting) : d.Alike (d.set s) := by
  cases d <;> cases s <;> constructor

/-- Nor does a clause, taken or not. -/
theorem alike_apply_assign (d : FieldDefinition) (c : Clause) :
    d.Alike ((assign c.attr c.argument).apply d).2 := by
  obtain ⟨s, -, h⟩ | ⟨-, p, -, h⟩ := apply_assign_cases d c
  · rw [h]
    exact alike_set d s
  · rw [h]

/-- Definitions that are alike accept the same clauses. -/
theorem Accepts.of_alike (hd : d.Alike d') (h : d.Accepts c s) : d'.Accepts c s := by
  have hformat : d.format? = d'.format? := by cases hd <;> rfl
  have htext : d.IsTextNumber → d'.IsTextNumber := by cases hd <;> exact id
  have hlength : d.HasLength → d'.HasLength := by cases hd <;> exact id
  cases h with
  | range hf hmin hle hmax => exact .range (hformat ▸ hf) hmin hle hmax
  | format h hl hname => exact .format (htext h) hl hname
  | length h hn => exact .length (hlength h) hn
  | lengths h hlower hle => exact .lengths (hlength h) hlower hle

/-- Definitions that are alike name the same bounds. -/
theorem NamesTooLong.of_alike (hd : d.Alike d') (h : d.NamesTooLong c) : d'.NamesTooLong c := by
  have hformat : d.format? = d'.format? := by cases hd <;> rfl
  obtain ⟨hf, hlong⟩ := h
  exact .range (hformat ▸ hf) hlong

/-! ## What accepted clauses set -/

/-- Bounds that are accepted are the bounds afterwards. -/
theorem Accepts.bounds?_set (h : d.Accepts c (.bounds min max)) :
    (d.set (.bounds min max)).bounds? = some (min, max) := by
  cases d with
  | constant text =>
    cases h with
    | range hf => cases hf
    | length hd | lengths hd => cases hd
  | textNumber | byteNumber | text | bytes => rfl

/-- A display that is accepted is the display afterwards. -/
theorem Accepts.display?_set (h : d.Accepts c (.display base)) :
    (d.set (.display base)).display? = some base := by
  cases h with
  | format hd =>
    cases d with
    | textNumber => rfl
    | constant | byteNumber | text | bytes => cases hd

/-- A display leaves the bounds as they are. -/
theorem bounds?_set_display (d : FieldDefinition) (base : DisplayBase) :
    (d.set (.display base)).bounds? = d.bounds? := by
  cases d <;> rfl

/-- Bounds leave the display as it is. -/
theorem display?_set_bounds (d : FieldDefinition) (min max : Int) :
    (d.set (.bounds min max)).display? = d.display? := by
  cases d <;> rfl

/-! ## Any clauses -/

/-- Clauses change nothing but the bounds and the display. -/
theorem alike_afterClauses (d : FieldDefinition) (cs : List Clause) :
    d.Alike (d.afterClauses cs) := by
  induction cs generalizing d with
  | nil => exact .refl d
  | cons c cs ih => exact (alike_apply_assign d c).trans (ih _)

/-- What is seen of a definition is changed by the settings of one sort, if no other setting
shows. -/
theorem view_afterClauses {β γ : Type} (view : FieldDefinition → γ) (put : γ → β → γ)
    {made : β → Setting} {cs : List Clause} {bs : List β}
    (h : Collects (fun c b => d.Accepts c (made b)) cs bs)
    (hput : ∀ d c b, Accepts d c (made b) → view (d.set (made b)) = put (view d) b)
    (hother : ∀ d s, (∀ b, s ≠ made b) → view (d.set s) = view d) :
    view (d.afterClauses cs) = bs.foldl put (view d) := by
  -- All definitions on the way are alike, so that they accept the same clauses.
  refine h.foldl_eq d.Alike (fun _ => True) ?_ ?_ ?_ (.refl d) fun _ _ => trivial
  · exact fun d' c hd' _ => hd'.trans (alike_apply_assign d' c)
  · intro d' c b hd' _ hb
    have hb' := hb.of_alike hd'
    rw [apply_assign_of_accepts hb']
    exact hput d' c b hb'
  · intro d' c hd' _ hnone
    obtain ⟨s, hs, happly⟩ | ⟨-, p, -, happly⟩ := apply_assign_cases d' c
    · rw [happly]
      exact hother d' s fun b heq => hnone b (heq ▸ hs.of_alike hd'.symm)
    · rw [happly]

/-- The bounds after some clauses are those that were set last. -/
theorem bounds?_afterClauses {cs : List Clause} {bs : List (Int × Int)}
    (h : Collects (fun c b => d.Accepts c (.bounds b.1 b.2)) cs bs) :
    (d.afterClauses cs).bounds? = (bs.map some).getLastD d.bounds? := by
  rw [← foldl_last, List.foldl_map]
  refine view_afterClauses bounds? _ h (fun d c b hb => hb.bounds?_set) fun d s hs => ?_
  cases s with
  | bounds min max => exact absurd rfl (hs (min, max))
  | display base => exact bounds?_set_display d base

/-- The display after some clauses is the one that was set last. -/
theorem display?_afterClauses {cs : List Clause} {bases : List DisplayBase}
    (h : Collects (fun c base => d.Accepts c (.display base)) cs bases) :
    (d.afterClauses cs).display? = (bases.map some).getLastD d.display? := by
  rw [← foldl_last, List.foldl_map]
  refine view_afterClauses display? _ h (fun d c b hb => hb.display?_set) fun d s hs => ?_
  cases s with
  | bounds min max => exact display?_set_bounds d min max
  | display base => exact absurd rfl (hs base)

/-- The range from zero to the least number that is too long. -/
def tooWideRange : Clause :=
  ⟨"RANGE", .group [.literal (.integer 0), .literal (.integer (10 ^ Text.digitLimit))]⟩

-- A range below the format, a length, which numbers do not have, and another range.
example : (textNumber (.ofFormat ⟨false, .one⟩) none).afterClauses
    [⟨"RANGE", .group [.literal (.integer (-1)), .literal (.integer 7)]⟩,
      ⟨"FORMAT", .literal (.text "Hex")⟩, ⟨"LEN", .literal (.integer 3)⟩,
      ⟨"RANGE", .group [.literal (.integer 2), .literal (.integer 7)]⟩] =
    textNumber ⟨⟨false, .one⟩, 2, 7⟩ (some .hexadecimal) := by decide

end FieldDefinition

end ByteLayout
