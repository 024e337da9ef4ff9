import Mathlib.Data.List.Basic
import ByteLayout.Proofs.InPlace
import ByteLayout.Proofs.Lists

/-!
# Parameters in any order

A generator under assignments, any of which may be refused. `Generator.Accepts` says which
assignments are accepted and what each of them changes; the generator has no part in this. Names are
ASCII and count in any case.

`Generator.update_eq_ok`: an accepted assignment makes its change and nothing else.
`Generator.after_any_assignments`: after any assignments the bounds are those that were set last and
the terminator has grown by all bytes that were added, in order, so that assignments of different
parameters may change places.
-/

namespace ByteLayout

/-! ## Names -/

namespace Text

variable {name word : Text}

/-- All characters of a name are ASCII. -/
def IsAscii (name : Text) : Prop :=
  ∀ c ∈ name.toList, c.toNat < 128

instance (name : Text) : Decidable (IsAscii name) :=
  List.decidableBAll _ name.toList

/-- The name has neither of the letters outside ASCII whose capitals are ASCII. -/
def HasPlainCapitals (name : Text) : Prop :=
  scalar 'ı' ∉ name.toList ∧ scalar 'ſ' ∉ name.toList

instance (name : Text) : Decidable (HasPlainCapitals name) :=
  inferInstanceAs (Decidable (_ ∧ _))

/-- Neither of the two letters is ASCII. -/
theorem IsAscii.hasPlainCapitals (h : IsAscii name) : HasPlainCapitals name :=
  ⟨fun hc => absurd (h _ hc) (by decide), fun hc => absurd (h _ hc) (by decide)⟩

/-- A character outside ASCII is its own capital. -/
theorem toUpper_of_not_ascii {c : Char} (h : 128 ≤ c.toNat) : c.toUpper = c := by
  have hz : 'z'.val.toNat = 122 := rfl
  refine dif_neg fun hc => ?_
  have hle : c.toNat ≤ 'z'.val.toNat := UInt32.le_iff_toNat_le.1 hc.2
  omega

/-- A character outside ASCII is its own small letter. -/
theorem toLower_of_not_ascii {c : Char} (h : 128 ≤ c.toNat) : c.toLower = c := by
  have hz : 'Z'.val.toNat = 90 := rfl
  refine dif_neg fun hc => ?_
  have hle : c.toNat ≤ 'Z'.val.toNat := UInt32.le_iff_toNat_le.1 hc.2
  omega

/-- A capital has the small letter of its character. -/
theorem toLower_toUpper (c : CodePoint) : c.toUpper.toLower = c.toLower := by
  cases c with
  | surrogate index => rfl
  | scalar c =>
    refine congrArg scalar ?_
    by_cases h : c.toNat < 128
    · have hascii : ∀ n < 128, (Char.ofNat n).toUpper.toLower = (Char.ofNat n).toLower := by decide
      rw [← Char.ofNat_toNat c]
      exact hascii _ h
    · rw [toUpper_of_not_ascii (Nat.le_of_not_lt h)]

/-- A small letter has the capital of its character. -/
theorem toUpper_toLower (c : CodePoint) : c.toLower.toUpper = c.toUpper := by
  cases c with
  | surrogate index => rfl
  | scalar c =>
    refine congrArg scalar ?_
    by_cases h : c.toNat < 128
    · have hascii : ∀ n < 128, (Char.ofNat n).toLower.toUpper = (Char.ofNat n).toUpper := by decide
      rw [← Char.ofNat_toNat c]
      exact hascii _ h
    · rw [toLower_of_not_ascii (Nat.le_of_not_lt h)]

theorem toList_lower (name : Text) : (lower name).toList = name.toList.map CodePoint.toLower :=
  Text.toList_ofList

/-- Capitals are those of the single letters. -/
theorem toList_capitals (h : HasPlainCapitals name) :
    (capitals name).toList = name.toList.map CodePoint.toUpper := by
  unfold capitals
  rw [Text.toList_ofList]
  refine List.map_congr_left fun c hc => ?_
  have hi : c ≠ 'ı' := fun heq => h.1 (heq ▸ hc)
  have hs : c ≠ 'ſ' := fun heq => h.2 (heq ▸ hc)
  unfold capital
  rw [if_neg hi, if_neg hs]

/-- Such a name has the capitals of a word exactly if it has its small letters. -/
theorem capitals_eq_iff (h : HasPlainCapitals name) (hword : HasPlainCapitals word) :
    capitals name = capitals word ↔ lower name = lower word := by
  rw [← Text.toList_inj, ← Text.toList_inj, toList_capitals h, toList_capitals hword,
    toList_lower, toList_lower]
  have hlower : CodePoint.toLower ∘ CodePoint.toUpper = CodePoint.toLower :=
    funext toLower_toUpper
  have hupper : CodePoint.toUpper ∘ CodePoint.toLower = CodePoint.toUpper :=
    funext toUpper_toLower
  constructor
  · intro heq
    have hmap := congrArg (List.map CodePoint.toLower) heq
    rwa [List.map_map, List.map_map, hlower] at hmap
  · intro heq
    have hmap := congrArg (List.map CodePoint.toUpper) heq
    rwa [List.map_map, List.map_map, hupper] at hmap

/-- Small letters leave the two letters as they are. -/
theorem hasPlainCapitals_of_lower (h : HasPlainCapitals (lower name)) :
    HasPlainCapitals name := by
  unfold HasPlainCapitals at h
  rw [toList_lower] at h
  -- Neither letter is a capital of ASCII, so that it stays as it is.
  exact ⟨fun hc => h.1 (List.mem_map.2 ⟨_, hc, by decide⟩),
    fun hc => h.2 (List.mem_map.2 ⟨_, hc, by decide⟩)⟩

/-- Without `I` and `S` among its capitals a name has neither of the two letters. -/
theorem hasPlainCapitals_of_capitals (hi : scalar 'I' ∉ (capitals name).toList)
    (hs : scalar 'S' ∉ (capitals name).toList) : HasPlainCapitals name := by
  unfold capitals at hi hs
  rw [Text.toList_ofList] at hi hs
  exact ⟨fun hc => hi (List.mem_map.2 ⟨_, hc, rfl⟩), fun hc => hs (List.mem_map.2 ⟨_, hc, rfl⟩)⟩

/-- Any name has the capitals of a word without `I` and `S` exactly if it has its small letters. -/
theorem capitals_eq_word_iff (name : Text) {small word : Text} (hword : capitals small = word)
    (hsmall : HasPlainCapitals small ∧ lower small = small)
    (hletters : scalar 'I' ∉ word.toList ∧ scalar 'S' ∉ word.toList) :
    capitals name = word ↔ lower name = small := by
  constructor
  · intro h
    rw [← h] at hletters
    have hname := hasPlainCapitals_of_capitals hletters.1 hletters.2
    rw [(capitals_eq_iff hname hsmall.1).1 (h.trans hword.symm), hsmall.2]
  · intro h
    have hname : HasPlainCapitals name := hasPlainCapitals_of_lower (h ▸ hsmall.1)
    rw [(capitals_eq_iff hname hsmall.1).2 (h.trans hsmall.2.symm), hword]

end Text

/-! ## One assignment -/

/-- The literal adds these bytes to a terminator. -/
inductive TerminatorPart : Literal → List UInt8 → Prop
  /-- A number is a byte. -/
  | integer {n : Nat} (hn : n < 256) : TerminatorPart (.integer n) [UInt8.ofNat n]
  /-- A text is its bytes in UTF-8, if it has any. -/
  | text {s : Text} {bs : List UInt8} (hs : Text.utf8 s = .ok bs) : TerminatorPart (.text s) bs
  /-- Bytes are themselves. -/
  | bytes {bs : List UInt8} : TerminatorPart (.bytes bs) bs
  /-- `NULL` -/
  | null {name : Text} (h : Text.lower name = "null") : TerminatorPart (.reserved name) [0x00]
  /-- `LF` -/
  | lineFeed {name : Text} (h : Text.lower name = "lf") :
    TerminatorPart (.reserved name) [0x0A]
  /-- `RF` -/
  | carriageReturn {name : Text} (h : Text.lower name = "rf") :
    TerminatorPart (.reserved name) [0x0D]

/-- A literal adds the same bytes each time. -/
theorem TerminatorPart.unique {l : Literal} {bs bs' : List UInt8} (h : TerminatorPart l bs)
    (h' : TerminatorPart l bs') : bs = bs' := by
  cases h <;> cases h' <;> simp_all

/-- Three reserved names have a byte each. -/
theorem reservedByte?_eq_some {name : Text} {b : UInt8} : reservedByte? name = some b ↔
    Text.lower name = "null" ∧ b = 0x00 ∨ Text.lower name = "lf" ∧ b = 0x0A ∨
      Text.lower name = "rf" ∧ b = 0x0D := by
  have hnull : Text.capitals name = "NULL" ↔ Text.lower name = "null" :=
    Text.capitals_eq_word_iff name (by decide) (by decide) (by decide)
  have hlf : Text.capitals name = "LF" ↔ Text.lower name = "lf" :=
    Text.capitals_eq_word_iff name (by decide) (by decide) (by decide)
  have hrf : Text.capitals name = "RF" ↔ Text.lower name = "rf" :=
    Text.capitals_eq_word_iff name (by decide) (by decide) (by decide)
  unfold reservedByte?
  simp only [hnull, hlf, hrf]
  split
  · next h => simp [h, eq_comm]
  · split
    · next h => simp [h, eq_comm]
    · split
      · next h => simp [h, eq_comm]
      · next h₁ h₂ h₃ => simp [h₁, h₂, h₃]

/-- The bytes of a value are those of its literal. -/
theorem Generator.terminatorBytes_eq_ok {value : Expr} {bs : List UInt8} :
    terminatorBytes value = .ok bs ↔ ∃ l, value = .literal l ∧ TerminatorPart l bs := by
  constructor
  · intro h
    unfold terminatorBytes at h
    split at h
    · cases h
    · next n =>
      split at h
      · next hn =>
        cases h
        obtain ⟨n, rfl⟩ := Int.eq_ofNat_of_zero_le hn.1
        exact ⟨_, rfl, .integer (by omega)⟩
      · cases h
    · exact ⟨_, rfl, .text (Except.mapError_eq_ok.1 h)⟩
    · cases h
      exact ⟨_, rfl, .bytes⟩
    · split at h
      · next hb =>
        cases h
        obtain ⟨hname, rfl⟩ | ⟨hname, rfl⟩ | ⟨hname, rfl⟩ := reservedByte?_eq_some.1 hb
        · exact ⟨_, rfl, .null hname⟩
        · exact ⟨_, rfl, .lineFeed hname⟩
        · exact ⟨_, rfl, .carriageReturn hname⟩
      · cases h
  · rintro ⟨l, rfl, h⟩
    cases h with
    | integer hn => exact if_pos ⟨by omega, by omega⟩
    | text hs => exact Except.mapError_eq_ok.2 hs
    | bytes => rfl
    | null h => simp only [terminatorBytes, reservedByte?_eq_some.2 (.inl ⟨h, rfl⟩)]
    | lineFeed h => simp only [terminatorBytes, reservedByte?_eq_some.2 (.inr (.inl ⟨h, rfl⟩))]
    | carriageReturn h =>
      simp only [terminatorBytes, reservedByte?_eq_some.2 (.inr (.inr ⟨h, rfl⟩))]

/-- The names of parameters in small letters. -/
theorem Parameter.lower_name (p : Parameter) : Text.lower p.name = match p with
    | outMin => "out_min"
    | outMax => "out_max"
    | terminator => "term" := by
  cases p <;> decide

/-- The parameter of an ASCII name, in any case. -/
theorem Parameter.ofName?_eq_some {name : Text} {p : Parameter} (h : Text.IsAscii name) :
    ofName? name = some p ↔ Text.lower name = Text.lower p.name := by
  have hp : Text.HasPlainCapitals p.name := by cases p <;> decide
  rw [← Text.capitals_eq_iff h.hasPlainCapitals hp]
  have hcapitals : Text.capitals p.name = p.name := by cases p <;> decide
  rw [hcapitals]
  constructor
  · intro heq
    simpa [eq_comm] using List.find?_some heq
  · intro heq
    unfold ofName?
    rw [heq]
    cases p <;> rfl

/-- The terminator is named in any case, by whatever letters. -/
theorem Parameter.ofName?_eq_terminator {name : Text} :
    ofName? name = some .terminator ↔ Text.lower name = "term" := by
  have hterm : Text.capitals name = "TERM" ↔ Text.lower name = "term" :=
    Text.capitals_eq_word_iff name (by decide) (by decide) (by decide)
  rw [← hterm]
  constructor
  · intro h
    have hname : Parameter.name .terminator = Text.capitals name := by
      simpa using List.find?_some h
    exact hname.symm
  · intro h
    unfold ofName?
    rw [h]
    rfl

/-- What an assignment changes of a generator. -/
inductive Change where
  /-- The least number of bytes. -/
  | outMin (n : Int)
  /-- The greatest number of bytes. -/
  | outMax (n : Int)
  /-- More bytes at the end of the terminator. -/
  | terminator (bs : List UInt8)

/-- The parameter that a change is of. -/
def Change.parameter : Change → Parameter
  | outMin _ => .outMin
  | outMax _ => .outMax
  | terminator _ => .terminator

namespace Generator

/-- A generator accepts the assignment, which makes this change. -/
inductive Accepts : Text × Expr → Change → Prop
  /-- `OUT_MIN = n` -/
  | outMin {name : Text} {n : Int} (hname : Text.lower name = "out_min") (hn : 0 ≤ n) :
    Accepts (name, .literal (.integer n)) (.outMin n)
  /-- `OUT_MAX = n` -/
  | outMax {name : Text} {n : Int} (hname : Text.lower name = "out_max") (hn : 0 ≤ n) :
    Accepts (name, .literal (.integer n)) (.outMax n)
  /-- `TERM = literal` -/
  | terminator {name : Text} {l : Literal} {bs : List UInt8}
    (hname : Text.lower name = "term") (hl : TerminatorPart l bs) :
    Accepts (name, .literal l) (.terminator bs)

/-- The assignment is that of a text without bytes to the terminator, which fails for this. -/
structure Breaks (a : Text × Expr) (e : Text.Unwritable) : Prop where
  /-- It is the terminator that is assigned. -/
  name : Text.lower a.1 = "term"
  /-- The value is a text without bytes. -/
  value : ∃ s, a.2 = .literal (.text s) ∧ Text.utf8 s = .error e

/-- A change is accepted under the name of its parameter. -/
theorem Accepts.name_eq {a : Text × Expr} {c : Change} (h : Accepts a c) :
    Text.lower a.1 = Text.lower c.parameter.name := by
  cases h with
  | outMin hname => exact hname.trans (Parameter.lower_name .outMin).symm
  | outMax hname => exact hname.trans (Parameter.lower_name .outMax).symm
  | terminator hname => exact hname.trans (Parameter.lower_name .terminator).symm

/-- An assignment makes one change. -/
theorem Accepts.unique {a : Text × Expr} {c c' : Change} (h : Accepts a c)
    (h' : Accepts a c') : c = c' := by
  cases h with
  | outMin hname =>
    cases h' with
    | outMin => rfl
    | outMax hname' | terminator hname' => simp [hname] at hname'
  | outMax hname =>
    cases h' with
    | outMax => rfl
    | outMin hname' | terminator hname' => simp [hname] at hname'
  | terminator hname hl =>
    cases h' with
    | terminator _ hl' => rw [hl.unique hl']
    | outMin hname' | outMax hname' => simp [hname] at hname'

/-- A generator with something changed. -/
def change (g : Generator) : Change → Generator
  | .outMin n => { g with outMin := n }
  | .outMax n => { g with outMax := n }
  | .terminator bs => { g with terminator := g.terminator ++ bs }

/-- A generator after some assignments, those that are refused included. -/
def afterAssignments (g : Generator) (as : List (Text × Expr)) : Generator :=
  as.foldl (fun g a => ((assign a.1 a.2).apply g).2) g

variable {g g' : Generator} {a : Text × Expr} {as as' : List (Text × Expr)} {c : Change}
  {e : Text.Unwritable}

/-- An accepted assignment makes its change and nothing else. -/
theorem update_eq_ok (ha : Text.IsAscii a.1) :
    g.update a.1 a.2 = .ok g' ↔ ∃ c, Accepts a c ∧ g' = g.change c := by
  obtain ⟨name, value⟩ := a
  constructor
  · intro h
    unfold update at h
    split at h
    · next hp =>
      have hname := ((Parameter.ofName?_eq_some ha).1 hp).trans (Parameter.lower_name .outMin)
      obtain ⟨n, hbound, rfl⟩ := Except.map_eq_ok.1 h
      obtain ⟨rfl, hn⟩ := bound_eq_ok.1 hbound
      exact ⟨_, .outMin hname hn, rfl⟩
    · next hp =>
      have hname := ((Parameter.ofName?_eq_some ha).1 hp).trans (Parameter.lower_name .outMax)
      obtain ⟨n, hbound, rfl⟩ := Except.map_eq_ok.1 h
      obtain ⟨rfl, hn⟩ := bound_eq_ok.1 hbound
      exact ⟨_, .outMax hname hn, rfl⟩
    · next hp =>
      have hname := ((Parameter.ofName?_eq_some ha).1 hp).trans
        (Parameter.lower_name .terminator)
      obtain ⟨bs, hbs, rfl⟩ := Except.map_eq_ok.1 h
      obtain ⟨l, rfl, hl⟩ := terminatorBytes_eq_ok.1 hbs
      exact ⟨_, .terminator hname hl, rfl⟩
    · cases h
  · rintro ⟨c, h, rfl⟩
    have hp : Parameter.ofName? name = some c.parameter :=
      (Parameter.ofName?_eq_some ha).2 h.name_eq
    cases h with
    | outMin _ hn => simp only [update, hp, Change.parameter, bound_eq_ok.2 ⟨rfl, hn⟩,
        Except.map, change]
    | outMax _ hn => simp only [update, hp, Change.parameter, bound_eq_ok.2 ⟨rfl, hn⟩,
        Except.map, change]
    | terminator _ hl => simp only [update, hp, Change.parameter, addTerminator,
        terminatorBytes_eq_ok.2 ⟨_, rfl, hl⟩, Except.map, change]

/-- What is neither accepted nor refused is a terminator without bytes. -/
theorem update_eq_unwritable : g.update a.1 a.2 = .error (.unwritable e) ↔ Breaks a e := by
  obtain ⟨name, value⟩ := a
  constructor
  · intro h
    unfold update at h
    split at h
    · exact absurd (Except.map_eq_error.1 h) bound_ne_unwritable
    · exact absurd (Except.map_eq_error.1 h) bound_ne_unwritable
    · next hp =>
      exact ⟨Parameter.ofName?_eq_terminator.1 hp,
        terminatorBytes_eq_unwritable.1 (Except.map_eq_error.1 h)⟩
    · cases h
  · rintro ⟨hname, hvalue⟩
    simp only [update, Parameter.ofName?_eq_terminator.2 hname, addTerminator,
      terminatorBytes_eq_unwritable.2 hvalue, Except.map]

/-- An accepted assignment is made. -/
theorem apply_assign_of_accepts (ha : Text.IsAscii a.1) (h : Accepts a c) :
    (assign a.1 a.2).apply g = (.ok (), g.change c) := by
  rw [apply_assign, (update_eq_ok ha).2 ⟨c, h, rfl⟩]
  rfl

/-- An assignment is made, or it fails and leaves the generator as it is. -/
theorem apply_assign_cases (g : Generator) (ha : Text.IsAscii a.1) :
    (∃ c, Accepts a c ∧ (assign a.1 a.2).apply g = (.ok (), g.change c)) ∨
      (∀ c, ¬ Accepts a c) ∧
        ∃ e, g.update a.1 a.2 = .error e ∧ (assign a.1 a.2).apply g = (.error e, g) := by
  rw [apply_assign]
  exact Edit.allOrNothing_cases (fun _ => update_eq_ok ha) fun _ => id

/-! ## Any assignments -/

/-- What assignments amount to: the bounds that they set and the bytes that they add, in order. -/
structure Totals (as : List (Text × Expr)) (mins maxs : List Int)
    (parts : List (List UInt8)) : Prop where
  /-- The least numbers of bytes that are set. -/
  outMin : Collects (fun a n => Accepts a (.outMin n)) as mins
  /-- The greatest numbers of bytes that are set. -/
  outMax : Collects (fun a n => Accepts a (.outMax n)) as maxs
  /-- The bytes that are added to the terminator. -/
  terminator : Collects (fun a bs => Accepts a (.terminator bs)) as parts

variable {mins maxs mins' maxs' : List Int} {parts parts' : List (List UInt8)}

/-- Assignments of any kind have totals. -/
theorem exists_totals (as : List (Text × Expr)) :
    ∃ mins maxs parts, Totals as mins maxs parts := by
  obtain ⟨mins, hmins⟩ := exists_collects (fun a n => Accepts a (.outMin n)) as
  obtain ⟨maxs, hmaxs⟩ := exists_collects (fun a n => Accepts a (.outMax n)) as
  obtain ⟨parts, hparts⟩ := exists_collects (fun a bs => Accepts a (.terminator bs)) as
  exact ⟨mins, maxs, parts, hmins, hmaxs, hparts⟩

/-- No assignment changes the group. -/
theorem group_afterAssignments (g : Generator) (has : ∀ a ∈ as, Text.IsAscii a.1) :
    (g.afterAssignments as).group = g.group := by
  induction as generalizing g with
  | nil => rfl
  | cons a as ih =>
    rw [List.forall_mem_cons] at has
    have hg : ((assign a.1 a.2).apply g).2.group = g.group := by
      obtain ⟨c, -, h⟩ | ⟨-, p, -, h⟩ := apply_assign_cases g has.1
      · rw [h]
        cases c <;> rfl
      · rw [h]
    exact (ih _ has.2).trans hg

/-- What is seen of a generator is changed by the changes of one sort, if no other change shows. -/
theorem view_afterAssignments {β γ : Type} (view : Generator → γ) (put : γ → β → γ)
    {made : β → Change} {bs : List β} (h : Collects (fun a b => Accepts a (made b)) as bs)
    (has : ∀ a ∈ as, Text.IsAscii a.1)
    (hput : ∀ g b, view (g.change (made b)) = put (view g) b)
    (hother : ∀ g c, (∀ b, c ≠ made b) → view (g.change c) = view g) :
    view (g.afterAssignments as) = bs.foldl put (view g) := by
  refine h.foldl_eq (fun _ => True) (fun a => Text.IsAscii a.1) (fun _ _ _ _ => trivial) ?_ ?_
    trivial has
  · intro g a b _ ha hb
    rw [apply_assign_of_accepts ha hb]
    exact hput g b
  · intro g a _ ha hnone
    obtain ⟨c, hc, happly⟩ | ⟨-, p, -, happly⟩ := apply_assign_cases g ha
    · rw [happly]
      exact hother g c fun b heq => hnone b (heq ▸ hc)
    · rw [happly]

/-- The bounds that are set last, and all bytes that are added. -/
theorem afterAssignments_eq (g : Generator) (has : ∀ a ∈ as, Text.IsAscii a.1)
    (h : Totals as mins maxs parts) : g.afterAssignments as =
      ⟨g.group, mins.getLastD g.outMin, maxs.getLastD g.outMax, g.terminator ++ parts.flatten⟩ := by
  have hmin : (g.afterAssignments as).outMin = mins.getLastD g.outMin := by
    have hother (g : Generator) (c : Change) (hc : ∀ n, c ≠ .outMin n) :
        (g.change c).outMin = g.outMin := by
      cases c with
      | outMin n => exact absurd rfl (hc n)
      | outMax | terminator => rfl
    rw [view_afterAssignments outMin (fun _ n => n) h.outMin has (fun _ _ => rfl) hother,
      foldl_last]
  have hmax : (g.afterAssignments as).outMax = maxs.getLastD g.outMax := by
    have hother (g : Generator) (c : Change) (hc : ∀ n, c ≠ .outMax n) :
        (g.change c).outMax = g.outMax := by
      cases c with
      | outMax n => exact absurd rfl (hc n)
      | outMin | terminator => rfl
    rw [view_afterAssignments outMax (fun _ n => n) h.outMax has (fun _ _ => rfl) hother,
      foldl_last]
  have hterm : (g.afterAssignments as).terminator = g.terminator ++ parts.flatten := by
    have hother (g : Generator) (c : Change) (hc : ∀ bs, c ≠ .terminator bs) :
        (g.change c).terminator = g.terminator := by
      cases c with
      | terminator bs => exact absurd rfl (hc bs)
      | outMin | outMax => rfl
    rw [view_afterAssignments terminator (· ++ ·) h.terminator has (fun _ _ => rfl) hother,
      List.foldl_append_eq_append, List.map_id']
  rw [← hmin, ← hmax, ← hterm, ← group_afterAssignments g has]

/-! ## Other orders -/

/-- The values of a parameter are found in its own assignments. -/
theorem collects_eq_of_filter {β : Type} {made : β → Change} {bs bs' : List β} (p : Parameter)
    (h : Collects (fun a b => Accepts a (made b)) as bs)
    (h' : Collects (fun a b => Accepts a (made b)) as' bs')
    (hp : ∀ b, (made b).parameter = p) (hmade : ∀ b b', made b = made b' → b = b')
    (heq : as'.filter (fun a => Text.lower a.1 = Text.lower p.name) =
      as.filter (fun a => Text.lower a.1 = Text.lower p.name)) : bs' = bs := by
  have hname (a : Text × Expr) (b : β) (hab : Accepts a (made b)) :
      decide (Text.lower a.1 = Text.lower p.name) = true :=
    decide_eq_true (hp b ▸ hab.name_eq)
  have hfilter := h'.filter hname
  rw [heq] at hfilter
  exact hfilter.unique (h.filter hname) fun a b b' hb hb' => hmade b b' (hb.unique hb')

/-- Assignments that are the same for each parameter amount to the same. -/
theorem Totals.eq_of_filter (h : Totals as mins maxs parts) (h' : Totals as' mins' maxs' parts')
    (heq : ∀ p : Parameter, as'.filter (fun a => Text.lower a.1 = Text.lower p.name) =
      as.filter (fun a => Text.lower a.1 = Text.lower p.name)) :
    mins' = mins ∧ maxs' = maxs ∧ parts' = parts :=
  ⟨collects_eq_of_filter .outMin h.outMin h'.outMin (fun _ => rfl)
      (fun _ _ => Change.outMin.inj) (heq .outMin),
    collects_eq_of_filter .outMax h.outMax h'.outMax (fun _ => rfl)
      (fun _ _ => Change.outMax.inj) (heq .outMax),
    collects_eq_of_filter .terminator h.terminator h'.terminator (fun _ => rfl)
      (fun _ _ => Change.terminator.inj) (heq .terminator)⟩

/-- After any assignments, failed ones included, the next assignment is made exactly if its name
and value are accepted; all others change nothing. They are refused, except that of a text without
bytes to the terminator, which fails for the text. The bounds are those that were set last, and the
terminator goes on with the bytes of all its assignments. Assignments in another order lead to the
same generator, as long as those of each parameter stay in theirs. -/
theorem after_any_assignments (g : Generator) (has : ∀ b ∈ as, Text.IsAscii b.1)
    (ha : Text.IsAscii a.1) :
    ((∃ c, Accepts a c ∧ (assign a.1 a.2).apply (g.afterAssignments as) =
        (.ok (), (g.afterAssignments as).change c)) ∨
      (∀ c, ¬ Accepts a c) ∧ (∃ e, Breaks a e ∧
        (assign a.1 a.2).apply (g.afterAssignments as) =
          (.error (.unwritable e), g.afterAssignments as)) ∨
      (∀ c, ¬ Accepts a c) ∧ (∀ e, ¬ Breaks a e) ∧ ∃ p : Problem, p.kind = .grammar ∧
        (assign a.1 a.2).apply (g.afterAssignments as) =
          (.error (.problem p), g.afterAssignments as)) ∧
    (∃ mins maxs parts, Totals as mins maxs parts ∧ g.afterAssignments as =
      ⟨g.group, mins.getLastD g.outMin, maxs.getLastD g.outMax,
        g.terminator ++ parts.flatten⟩) ∧
    ∀ as', (∀ b ∈ as', Text.IsAscii b.1) →
      (∀ p : Parameter, as'.filter (fun b => Text.lower b.1 = Text.lower p.name) =
        as.filter (fun b => Text.lower b.1 = Text.lower p.name)) →
      g.afterAssignments as' = g.afterAssignments as := by
  refine ⟨?_, ?_, ?_⟩
  · obtain ⟨c, hc, happly⟩ | ⟨hnone, e, hupdate, happly⟩ :=
      apply_assign_cases (g.afterAssignments as) ha
    · exact .inl ⟨c, hc, happly⟩
    · cases e with
      | unwritable e =>
        exact .inr (.inl ⟨hnone, e, update_eq_unwritable.1 hupdate, happly⟩)
      | problem p =>
        refine .inr (.inr ⟨hnone, fun e he => ?_, p, ?_, happly⟩)
        · cases hupdate.symm.trans (update_eq_unwritable.2 he)
        · exact Problem.kind_of_invalidParameter (code_of_update hupdate)
  · obtain ⟨mins, maxs, parts, h⟩ := exists_totals as
    exact ⟨mins, maxs, parts, h, afterAssignments_eq g has h⟩
  · intro as' has' heq
    obtain ⟨mins, maxs, parts, h⟩ := exists_totals as
    obtain ⟨mins', maxs', parts', h'⟩ := exists_totals as'
    obtain ⟨rfl, rfl, rfl⟩ := h.eq_of_filter h' heq
    rw [afterAssignments_eq g has h, afterAssignments_eq g has' h']

/-- Assignments of all parameters, two of which are refused. -/
def mixedAssignments : List (Text × Expr) :=
  [("Out_Max", .literal (.integer 8)), ("TERM", .literal (.text "é")),
    ("size", .literal (.integer 3)), ("out_max", .literal (.integer (-1))),
    ("term", .literal (.reserved "lF")), ("OUT_MAX", .literal (.integer 5))]

/-- The same assignments of each parameter, the terminator first. -/
def sortedAssignments : List (Text × Expr) :=
  [("TERM", .literal (.text "é")), ("term", .literal (.reserved "lF")),
    ("Out_Max", .literal (.integer 8)), ("out_max", .literal (.integer (-1))),
    ("OUT_MAX", .literal (.integer 5))]

/-- After `mixedAssignments` another byte is added, and in the other order they do the same. -/
theorem mixedAssignments_history :
    (∀ b ∈ mixedAssignments, Text.IsAscii b.1) ∧ Text.IsAscii "tErM" ∧
      (assign "tErM" (.literal (.integer 255))).apply ⟨"g", 0, 5, [0x07, 0xC3, 0xA9, 0x0A]⟩ =
        (.ok (), ⟨"g", 0, 5, [0x07, 0xC3, 0xA9, 0x0A, 0xFF]⟩) ∧
      (∃ mins maxs parts, Totals mixedAssignments mins maxs parts ∧
        (⟨"g", 0, 5, [0x07, 0xC3, 0xA9, 0x0A]⟩ : Generator) =
          ⟨"g", mins.getLastD 0, maxs.getLastD 4096, [0x07] ++ parts.flatten⟩) ∧
      afterAssignments ⟨"g", 0, 4096, [0x07]⟩ sortedAssignments =
        ⟨"g", 0, 5, [0x07, 0xC3, 0xA9, 0x0A]⟩ := by
  have hmixed : afterAssignments ⟨"g", 0, 4096, [0x07]⟩ mixedAssignments =
      ⟨"g", 0, 5, [0x07, 0xC3, 0xA9, 0x0A]⟩ := by decide
  have has : ∀ b ∈ mixedAssignments, Text.IsAscii b.1 := by decide
  have ha : Text.IsAscii "tErM" := by decide
  have hbyte : Accepts ("tErM", .literal (.integer 255)) (.terminator [0xFF]) :=
    .terminator (by decide) (.integer (by decide) : TerminatorPart (.integer (255 : Nat)) _)
  obtain ⟨hnext, htotals, horder⟩ :=
    after_any_assignments (a := ("tErM", .literal (.integer 255))) ⟨"g", 0, 4096, [0x07]⟩ has ha
  rw [hmixed] at hnext htotals horder
  refine ⟨has, ha, ?_, htotals, horder _ (by decide) fun p => ?_⟩
  · obtain ⟨c, hc, happly⟩ | ⟨hnone, -⟩ | ⟨hnone, -⟩ := hnext
    · obtain rfl := hc.unique hbyte
      exact happly
    · exact absurd hbyte (hnone _)
    · exact absurd hbyte (hnone _)
  · cases p <;> decide

/-- The assignment of a text of one surrogate to the terminator. -/
def surrogateAssignment : Text × Expr :=
  ("TERM", .literal (.text (.singleton (.ofNat 0xD800))))

/-- It is not made, though its value is a text, and it fails with no problem. -/
theorem surrogateAssignment_unwritable :
    (assign surrogateAssignment.1 surrogateAssignment.2).apply { group := "a" } =
      (.error (.unwritable (.uncovered .utf8 (.ofNat 0xD800) 0 1)), { group := "a" }) := by
  decide

end Generator

end ByteLayout
