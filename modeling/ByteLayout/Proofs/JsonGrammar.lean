import Mathlib.Algebra.Field.Rat
import Mathlib.Data.List.Nodup
import ByteLayout.Proofs.Lists
import ByteLayout.Proofs.Numerals

/-!
# The grammar of JSON

What a JSON text denotes, as relations between texts and values that follow the productions of the
grammar: gaps, numbers, texts, rows with commas between their members, values and documents. A
character of a text may be written in several ways, among them an escape of its code, or of the two
surrogates of a code beyond the first plane; a lone surrogate denotes no character.

A text denotes at most one value (`Document.unique`). The parts of a text are cut in one way only:
digits, signs and blanks end where the next character is none of them (`append_stop_unique`), the
characters of a text are a `PrefixCode`, and a row is cut at its commas (`Row.unique`).
-/

namespace ByteLayout.Json

open Text

/-! ## Values -/

/-- What a JSON text denotes. -/
inductive Value where
  /-- No value. -/
  | null
  /-- A truth value. -/
  | bool (b : Bool)
  /-- A number. -/
  | number (q : ℚ)
  /-- A text. -/
  | text (s : Text)
  /-- Values in a row. -/
  | array (vs : List Value)
  /-- Values with names. -/
  | object (members : List (Text × Value))

/-! ## Gaps -/

/-- Whether a character may stand in a gap. -/
def isBlank (c : CodePoint) : Bool :=
  c = ' ' || c = '\t' || c = '\n' || c = '\r'

/-- The characters between the parts of a text. -/
def IsGap (cs : List CodePoint) : Prop :=
  ∀ c ∈ cs, isBlank c

/-! ## Numbers -/

/-- Digits, at least one. -/
def IsDigits (cs : List CodePoint) : Prop :=
  cs ≠ [] ∧ ∀ c ∈ cs, isDecimalDigit c

/-- The digits before the point: a leading zero stands alone. -/
def IsWhole (cs : List CodePoint) : Prop :=
  IsDigits cs ∧ (cs.head? = some (scalar '0') → cs = [scalar '0'])

/-- A sign as a factor. -/
inductive SignText : List CodePoint → ℤ → Prop
  /-- No sign. -/
  | none : SignText [] 1
  /-- A plus. -/
  | plus : SignText [scalar '+'] 1
  /-- A minus. -/
  | minus : SignText [scalar '-'] (-1)

/-- The digits behind the point. -/
inductive FractionText : List CodePoint → List CodePoint → Prop
  /-- There is no point. -/
  | none : FractionText [] []
  /-- A point and digits. -/
  | digits {ds : List CodePoint} (h : IsDigits ds) : FractionText (scalar '.' :: ds) ds

/-- The power of ten by which a number is multiplied. -/
inductive ExponentText : List CodePoint → ℤ → Prop
  /-- There is no exponent. -/
  | none : ExponentText [] 0
  /-- A mark, a sign and digits. -/
  | digits {mark : CodePoint} {sign ds : List CodePoint} {s : ℤ} (hmark : mark = 'e' ∨ mark = 'E')
      (hsign : SignText sign s) (h : IsDigits ds) :
      ExponentText (mark :: (sign ++ ds)) (s * ofDigits 10 ds)

/-- A number: a sign, though no plus, the digits before and behind the point and an exponent. -/
inductive NumberText : List CodePoint → ℚ → Prop
  | mk {sign whole fraction exponent ds : List CodePoint} {s e : ℤ} (hsign : SignText sign s)
      (hplus : sign ≠ [scalar '+']) (hwhole : IsWhole whole) (hfraction : FractionText fraction ds)
      (hexponent : ExponentText exponent e) :
      NumberText (sign ++ (whole ++ (fraction ++ exponent)))
        (s * ofDigits 10 (whole ++ ds) * 10 ^ (e - ds.length))

/-! ## Texts -/

/-- The letters that stand for a character behind a backslash. -/
def shortEscapes : List (CodePoint × CodePoint) :=
  [('"', '"'), ('\\', '\\'), ('/', '/'), ('b', '\x08'), ('f', '\x0c'), ('n', '\n'), ('r', '\r'),
    ('t', '\t')]

/-- The four hexadecimal digits of a code. -/
inductive CodeText : List CodePoint → ℕ → Prop
  | mk {ds : List CodePoint} (hlength : ds.length = 4) (h : ∀ c ∈ ds, isHexDigit c) :
      CodeText ds (ofDigits 16 ds)

/-- What may stand behind a backslash for a character. -/
inductive EscapeText : List CodePoint → CodePoint → Prop
  /-- A letter of its own. -/
  | letter {letter c : CodePoint} (h : (letter, c) ∈ shortEscapes) : EscapeText [letter] c
  /-- Its code. -/
  | code {ds : List CodePoint} {n : ℕ} (h : CodeText ds n) (hvalid : n.isValidChar) :
      EscapeText (scalar 'u' :: ds) (Char.ofNat n)
  /-- The two surrogates of its code. -/
  | surrogates {ds ds' : List CodePoint} {high low : ℕ} (h : CodeText ds (0xD800 + high))
      (h' : CodeText ds' (0xDC00 + low)) (hhigh : high < 0x400) (hlow : low < 0x400) :
      EscapeText (scalar 'u' :: (ds ++ scalar '\\' :: scalar 'u' :: ds'))
        (Char.ofNat (0x10000 + 0x400 * high + low))

/-- How a character may stand between quotation marks. -/
inductive CharText : List CodePoint → CodePoint → Prop
  /-- For itself. -/
  | plain {c : CodePoint} (hvisible : 0x20 ≤ c.toNat) (hmark : c ≠ '"') (hescape : c ≠ '\\') :
      CharText [c] c
  /-- Behind a backslash. -/
  | escaped {cs : List CodePoint} {c : CodePoint} (h : EscapeText cs c) :
      CharText (scalar '\\' :: cs) c

/-- A text between quotation marks. -/
inductive TextLiteral : List CodePoint → Text → Prop
  | mk {body cs : List CodePoint} (h : CodeRow CharText body cs) :
      TextLiteral (scalar '"' :: (body ++ [scalar '"'])) (Text.ofList cs)

/-! ## Rows, values and documents -/

section Rows

variable {α : Type} (spells : List CodePoint → α → Prop)

/-- Members with commas between them and gaps around each. -/
inductive Row : List CodePoint → List α → Prop
  /-- No member. -/
  | nil {gap : List CodePoint} (hgap : IsGap gap) : Row gap []
  /-- One member. -/
  | one {before cs after : List CodePoint} {a : α} (hbefore : IsGap before) (h : spells cs a)
      (hafter : IsGap after) : Row (before ++ (cs ++ after)) [a]
  /-- A member and, behind a comma, others. -/
  | cons {before cs after row : List CodePoint} {a : α} {as : List α} (hbefore : IsGap before)
      (h : spells cs a) (hafter : IsGap after) (hrest : Row row as) (hne : as ≠ []) :
      Row (before ++ (cs ++ (after ++ scalar ',' :: row))) (a :: as)

/-- A name, a colon and what is named. -/
inductive Member : List CodePoint → Text × α → Prop
  | mk {nameText before after cs : List CodePoint} {name : Text} {a : α}
      (hname : TextLiteral nameText name) (hbefore : IsGap before) (hafter : IsGap after)
      (h : spells cs a) : Member (nameText ++ (before ++ scalar ':' :: (after ++ cs))) (name, a)

end Rows

/-- How a value may be written. -/
inductive Spells : List CodePoint → Value → Prop
  /-- No value. -/
  | null : Spells ("null" : Text).toList .null
  /-- A truth value. -/
  | bool {b : Bool} : Spells (if b then "true" else "false" : Text).toList (.bool b)
  /-- A number. -/
  | number {cs : List CodePoint} {q : ℚ} (h : NumberText cs q) : Spells cs (.number q)
  /-- A text. -/
  | text {cs : List CodePoint} {s : Text} (h : TextLiteral cs s) : Spells cs (.text s)
  /-- A row of values between square brackets. -/
  | array {row : List CodePoint} {vs : List Value} (h : Row Spells row vs) :
      Spells (scalar '[' :: (row ++ [scalar ']'])) (.array vs)
  /-- A row of members between braces. -/
  | object {row : List CodePoint} {members : List (Text × Value)}
      (h : Row (Member Spells) row members) :
      Spells (scalar '\x7b' :: (row ++ [scalar '\x7d'])) (.object members)

/-- A text that denotes a value: it is written there, with gaps around it. -/
inductive Document : List CodePoint → Value → Prop
  | mk {before cs after : List CodePoint} {v : Value} (hbefore : IsGap before) (h : Spells cs v)
      (hafter : IsGap after) : Document (before ++ (cs ++ after)) v

/-! ## Numbers are cut in one way -/

section Numbers

variable {x y ds ds' : List CodePoint}

/-- Whether a character may stand inside a number, after its sign. -/
def isNumeric (c : CodePoint) : Bool :=
  isDecimalDigit c || c = '.' || c = 'e' || c = 'E'

/-- A run of digits begins with a digit. -/
theorem IsDigits.head (h : IsDigits ds) : ∀ c ∈ (ds ++ x).head?, isDecimalDigit c := by
  obtain ⟨d, more, rfl⟩ := List.exists_cons_of_ne_nil h.1
  intro c hc
  obtain rfl := Option.some.inj hc
  exact h.2 d List.mem_cons_self

/-- A sign has no digits. -/
theorem SignText.not_digit {sign : List CodePoint} {s : ℤ} (h : SignText sign s) :
    ∀ c ∈ sign, !isDecimalDigit c := by
  cases h with
  | none => exact List.forall_mem_nil _
  | plus | minus => exact List.forall_mem_singleton.2 rfl

/-- A sign ends where the digits begin. -/
theorem SignText.unique {sign sign' : List CodePoint} {s s' : ℤ} (h : SignText sign s)
    (h' : SignText sign' s') (hx : ∀ c ∈ x.head?, isDecimalDigit c)
    (hy : ∀ c ∈ y.head?, isDecimalDigit c) (heq : sign ++ x = sign' ++ y) : s = s' ∧ x = y := by
  obtain ⟨rfl, hrest⟩ := append_stop_unique h.not_digit (fun c hc => by simp [hx c hc])
    h'.not_digit (fun c hc => by simp [hy c hc]) heq
  refine ⟨?_, hrest⟩
  cases h <;> cases h' <;> rfl

/-- The digits behind the point end where neither a digit nor a point follows. -/
theorem FractionText.unique {fraction fraction' : List CodePoint} (h : FractionText fraction ds)
    (h' : FractionText fraction' ds') (hx : ∀ c ∈ x.head?, isDecimalDigit c = false ∧ c ≠ '.')
    (hy : ∀ c ∈ y.head?, isDecimalDigit c = false ∧ c ≠ '.')
    (heq : fraction ++ x = fraction' ++ y) : ds = ds' ∧ x = y := by
  cases h with
  | none =>
    cases h' with
    | none => exact ⟨rfl, heq⟩
    | digits =>
      obtain rfl : x = scalar '.' :: _ := heq
      exact absurd rfl (hx '.' rfl).2
  | digits hds =>
    cases h' with
    | none =>
      obtain rfl : scalar '.' :: _ = y := heq
      exact absurd rfl (hy '.' rfl).2
    | digits hds' =>
      exact append_stop_unique hds.2 (fun c hc => (hx c hc).1) hds'.2 (fun c hc => (hy c hc).1)
        (List.tail_eq_of_cons_eq heq)

/-- No digit follows where a fraction begins, or where what is behind it does. -/
theorem FractionText.stops {fraction : List CodePoint} (h : FractionText fraction ds)
    (hx : ∀ c ∈ x.head?, isDecimalDigit c = false ∧ c ≠ '.') :
    ∀ c ∈ (fraction ++ x).head?, isDecimalDigit c = false := by
  cases h with
  | none => exact fun c hc => (hx c hc).1
  | digits =>
    intro c hc
    obtain rfl := Option.some.inj hc
    rfl

/-- An exponent ends where nothing of a number follows. -/
theorem ExponentText.unique {exponent exponent' : List CodePoint} {e e' : ℤ}
    (h : ExponentText exponent e) (h' : ExponentText exponent' e')
    (hx : ∀ c ∈ x.head?, isNumeric c = false) (hy : ∀ c ∈ y.head?, isNumeric c = false)
    (heq : exponent ++ x = exponent' ++ y) : e = e' ∧ x = y := by
  have hmark : ∀ {c : CodePoint}, c = 'e' ∨ c = 'E' → isNumeric c := by
    rintro c (rfl | rfl) <;> rfl
  have hdigit : ∀ {c : CodePoint}, isNumeric c = false → isDecimalDigit c = false := by
    intro c hc
    simp only [isNumeric, Bool.or_eq_false_iff] at hc
    exact hc.1.1.1
  cases h with
  | none =>
    cases h' with
    | none => exact ⟨rfl, heq⟩
    | @digits mark _ _ _ h =>
      obtain rfl : x = mark :: _ := heq
      exact absurd (hmark h) (by simp [hx mark rfl])
  | @digits mark _ _ _ h hsign hds =>
    cases h' with
    | none =>
      obtain rfl : mark :: _ = y := heq
      exact absurd (hmark h) (by simp [hy mark rfl])
    | digits _ hsign' hds' =>
      simp only [List.cons_append, List.append_assoc] at heq
      obtain ⟨rfl, hdigits⟩ := hsign.unique hsign' hds.head hds'.head (List.tail_eq_of_cons_eq heq)
      obtain ⟨rfl, hrest⟩ := append_stop_unique hds.2 (fun c hc => hdigit (hx c hc)) hds'.2
        (fun c hc => hdigit (hy c hc)) hdigits
      exact ⟨rfl, hrest⟩

/-- Neither a digit nor a point follows where an exponent begins. -/
theorem ExponentText.stops {exponent : List CodePoint} {e : ℤ} (h : ExponentText exponent e)
    (hx : ∀ c ∈ x.head?, isNumeric c = false) :
    ∀ c ∈ (exponent ++ x).head?, isDecimalDigit c = false ∧ c ≠ '.' := by
  cases h with
  | none =>
    intro c hc
    have hnot := hx c hc
    simp only [isNumeric, Bool.or_eq_false_iff, decide_eq_false_iff_not] at hnot
    exact ⟨hnot.1.1.1, hnot.1.1.2⟩
  | digits hmark =>
    intro c hc
    obtain rfl := Option.some.inj hc
    rcases hmark with rfl | rfl <;> exact ⟨rfl, by decide⟩

/-- A number ends where nothing of a number follows. -/
theorem NumberText.unique {cs cs' : List CodePoint} {q q' : ℚ} (h : NumberText cs q)
    (h' : NumberText cs' q') (hx : ∀ c ∈ x.head?, isNumeric c = false)
    (hy : ∀ c ∈ y.head?, isNumeric c = false) (heq : cs ++ x = cs' ++ y) : q = q' ∧ x = y := by
  obtain ⟨hsign, -, hwhole, hfraction, hexponent⟩ := h
  obtain ⟨hsign', -, hwhole', hfraction', hexponent'⟩ := h'
  simp only [List.append_assoc] at heq
  obtain ⟨rfl, hdigits⟩ := hsign.unique hsign' hwhole.1.head hwhole'.1.head heq
  obtain ⟨rfl, hpoint⟩ := append_stop_unique hwhole.1.2 (hfraction.stops (hexponent.stops hx))
    hwhole'.1.2 (hfraction'.stops (hexponent'.stops hy)) hdigits
  obtain ⟨rfl, hmark⟩ :=
    hfraction.unique hfraction' (hexponent.stops hx) (hexponent'.stops hy) hpoint
  obtain ⟨rfl, hrest⟩ := hexponent.unique hexponent' hx hy hmark
  exact ⟨rfl, hrest⟩

end Numbers

/-! ## Texts are cut in one way -/

section Texts

variable {x y ds ds' cs cs' : List CodePoint} {c c' : CodePoint}

/-- Four digits are read in one way. -/
theorem CodeText.unique {n n' : ℕ} (h : CodeText ds n) (h' : CodeText ds' n')
    (heq : ds ++ x = ds' ++ y) : n = n' ∧ x = y := by
  obtain ⟨hlength, -⟩ := h
  obtain ⟨hlength', -⟩ := h'
  obtain ⟨rfl, hrest⟩ := List.append_inj heq (hlength.trans hlength'.symm)
  exact ⟨rfl, hrest⟩

/-- No short escape begins as that of a code. -/
theorem ne_u_of_mem_shortEscapes {letter : CodePoint} (h : (letter, c) ∈ shortEscapes) :
    letter ≠ 'u' := by
  have hu : scalar 'u' ∉ shortEscapes.map Prod.fst := by decide
  rintro rfl
  exact hu (List.mem_map_of_mem h)

/-- A letter is the short escape of one character. -/
theorem shortEscapes_unique {letter : CodePoint} (h : (letter, c) ∈ shortEscapes)
    (h' : (letter, c') ∈ shortEscapes) : c = c' := by
  have hnodup : (shortEscapes.map Prod.fst).Nodup := by decide
  exact congrArg Prod.snd (List.inj_on_of_nodup_map hnodup h h' rfl)

/-- The code of a surrogate is that of no character. -/
theorem not_isValidChar_surrogate {high : ℕ} (h : high < 0x400) :
    ¬ (0xD800 + high).isValidChar := by
  intro hvalid
  unfold Nat.isValidChar at hvalid
  omega

/-- An escape is read in one way. -/
theorem EscapeText.unique (h : EscapeText cs c) (h' : EscapeText cs' c')
    (heq : cs ++ x = cs' ++ y) : c = c' ∧ x = y := by
  cases h with
  | letter h =>
    cases h' with
    | letter h' =>
      obtain ⟨rfl, rfl⟩ := List.cons.inj heq
      exact ⟨shortEscapes_unique h h', rfl⟩
    | code | surrogates => exact absurd (List.cons.inj heq).1 (ne_u_of_mem_shortEscapes h)
  | code h hvalid =>
    cases h' with
    | letter h' => exact absurd (List.cons.inj heq).1.symm (ne_u_of_mem_shortEscapes h')
    | code h' =>
      obtain ⟨rfl, hrest⟩ := h.unique h' (List.tail_eq_of_cons_eq heq)
      exact ⟨rfl, hrest⟩
    | surrogates h' _ hhigh =>
      simp only [List.cons_append, List.append_assoc] at heq
      obtain ⟨rfl, -⟩ := h.unique h' (List.tail_eq_of_cons_eq heq)
      exact absurd hvalid (not_isValidChar_surrogate hhigh)
  | surrogates h hsecond hhigh hlow =>
    simp only [List.cons_append, List.append_assoc] at heq
    cases h' with
    | letter h' => exact absurd (List.cons.inj heq).1.symm (ne_u_of_mem_shortEscapes h')
    | code h' hvalid =>
      obtain ⟨rfl, -⟩ := h.unique h' (List.tail_eq_of_cons_eq heq)
      exact absurd hvalid (not_isValidChar_surrogate hhigh)
    | surrogates h' hsecond' =>
      simp only [List.cons_append, List.append_assoc] at heq
      obtain ⟨hhigh', hrest⟩ := h.unique h' (List.tail_eq_of_cons_eq heq)
      obtain ⟨hlow', rfl⟩ := hsecond.unique hsecond'
        (List.tail_eq_of_cons_eq (List.tail_eq_of_cons_eq hrest))
      rw [Nat.add_left_cancel hhigh', Nat.add_left_cancel hlow']
      exact ⟨rfl, rfl⟩

/-- The texts of characters are told apart from the left, and from the closing mark. -/
theorem prefixCode_charText : PrefixCode CharText '"' where
  unique := by
    intro code code' c c' x y h h' heq
    cases h with
    | plain _ _ hescape =>
      cases h' with
      | plain =>
        obtain ⟨rfl, rfl⟩ := List.cons.inj heq
        exact ⟨rfl, rfl⟩
      | escaped => exact absurd (List.cons.inj heq).1 hescape
    | escaped h =>
      cases h' with
      | plain _ _ hescape => exact absurd (List.cons.inj heq).1.symm hescape
      | escaped h' =>
        obtain ⟨rfl, rfl⟩ := h.unique h' (List.tail_eq_of_cons_eq heq)
        exact ⟨List.append_cancel_right heq, rfl⟩
  ne_mark := by
    intro code c x y h heq
    cases h with
    | plain _ hmark => exact hmark (List.cons.inj heq).1
    | escaped => exact absurd (List.cons.inj heq).1 (by decide)

/-- A text ends at its second quotation mark. -/
theorem TextLiteral.unique {s s' : Text} (h : TextLiteral cs s) (h' : TextLiteral cs' s')
    (heq : cs ++ x = cs' ++ y) : s = s' ∧ x = y := by
  obtain ⟨hrow⟩ := h
  obtain ⟨hrow'⟩ := h'
  simp only [List.cons_append, List.append_assoc, List.nil_append] at heq
  obtain ⟨rfl, hrest⟩ :=
    prefixCode_charText.row_unique hrow hrow' (List.tail_eq_of_cons_eq heq)
  exact ⟨rfl, hrest⟩

end Texts

/-! ## Rows are cut in one way -/

/-- The characters that part the values of a row, and end it. -/
def isMark (c : CodePoint) : Bool :=
  c = ',' || c = ':' || c = ']' || c = '\x7d'

/-- A value ends with the text, at a gap or at a mark. -/
def Stops (x : List CodePoint) : Prop :=
  ∀ c ∈ x.head?, isBlank c || isMark c

/-- A value begins neither with a blank nor with a mark. -/
def Opens (cs : List CodePoint) : Prop :=
  ∃ c more, cs = c :: more ∧ isBlank c = false ∧ isMark c = false

/-- A mark is no blank. -/
theorem not_isBlank_of_isMark {c : CodePoint} (h : isMark c) : isBlank c = false := by
  simp only [isMark, Bool.or_eq_true, decide_eq_true_eq] at h
  rcases h with ((rfl | rfl) | rfl) | rfl <;> rfl

/-- A text stands for something: it opens, and whatever stands behind it, nothing else is spelled
there. -/
structure ReadAs {α : Type} (spells : List CodePoint → α → Prop) (cs : List CodePoint) (a : α) :
    Prop where
  /-- The text opens. -/
  opens : Opens cs
  /-- Nothing else is spelled. -/
  unique : ∀ {cs' : List CodePoint} {a' : α} {x y : List CodePoint}, spells cs' a' → Stops x →
    Stops y → cs ++ x = cs' ++ y → a = a' ∧ x = y

section Rows

variable {α : Type} {spells : List CodePoint → α → Prop} {cs cs' row row' x y : List CodePoint}
  {a a' : α} {as as' : List α} {gap gap' before before' after after' : List CodePoint}
  {d d' : CodePoint}

/-- A value ends where a gap and a mark follow. -/
theorem stops_gap (hgap : IsGap gap) (hd : isMark d) : Stops (gap ++ d :: x) := by
  intro c hc
  cases gap with
  | nil =>
    obtain rfl := Option.some.inj hc
    simp [hd]
  | cons b gap =>
    obtain rfl := Option.some.inj hc
    simp [hgap b List.mem_cons_self]

/-- A value begins neither with a blank nor with a mark. -/
theorem Opens.head (h : Opens cs) :
    ∀ c ∈ (cs ++ x).head?, isBlank c = false ∧ isMark c = false := by
  obtain ⟨d, more, rfl, hnot⟩ := h
  intro c hc
  obtain rfl := Option.some.inj hc
  exact hnot

/-- No blank stands where a mark does. -/
theorem head_of_isMark (hd : isMark d) : ∀ c ∈ (d :: x).head?, isBlank c = false := by
  intro c hc
  obtain rfl := Option.some.inj hc
  exact not_isBlank_of_isMark hd

/-- A gap ends at a mark. -/
theorem gap_unique (hgap : IsGap gap) (hgap' : IsGap gap') (hd : isMark d) (hd' : isMark d')
    (heq : gap ++ d :: x = gap' ++ d' :: y) : d = d' ∧ x = y :=
  List.cons.inj (append_stop_unique hgap (head_of_isMark hd) hgap' (head_of_isMark hd') heq).2

/-- A gap ends where a value opens. -/
theorem opens_unique (hgap : IsGap gap) (hgap' : IsGap gap') (h : Opens cs) (h' : Opens cs')
    (heq : gap ++ (cs ++ x) = gap' ++ (cs' ++ y)) : cs ++ x = cs' ++ y :=
  (append_stop_unique hgap (fun c hc => (h.head c hc).1) hgap' (fun c hc => (h'.head c hc).1) heq).2

/-- No value opens at a mark. -/
theorem Opens.ne_mark (h : Opens cs) (hgap : IsGap gap) (hgap' : IsGap gap') (hd : isMark d) :
    gap ++ d :: x ≠ gap' ++ (cs ++ y) := by
  intro heq
  obtain ⟨-, hopens⟩ := append_stop_unique hgap (head_of_isMark hd) hgap'
    (fun c hc => (h.head c hc).1) heq
  have hnot := (h.head d (by rw [← hopens]; rfl)).2
  rw [hd] at hnot
  cases hnot

/-- A member is told between two gaps, and so is the mark behind it. -/
theorem ReadAs.unique_between (h : ReadAs spells cs a) (h' : spells cs' a') (hopens : Opens cs')
    (hbefore : IsGap before) (hbefore' : IsGap before') (hafter : IsGap after)
    (hafter' : IsGap after') (hd : isMark d) (hd' : isMark d')
    (heq : before ++ (cs ++ (after ++ d :: x)) = before' ++ (cs' ++ (after' ++ d' :: y))) :
    a = a' ∧ d = d' ∧ x = y := by
  obtain ⟨rfl, hrest⟩ := h.unique h' (stops_gap hafter hd) (stops_gap hafter' hd')
    (opens_unique hbefore hbefore' h.opens hopens heq)
  exact ⟨rfl, gap_unique hafter hafter' hd hd' hrest⟩

/-- A row of one kind of text is one of a wider kind. -/
theorem Row.mono {p q : List CodePoint → α → Prop} (hpq : ∀ {cs a}, p cs a → q cs a)
    (h : Row p row as) : Row q row as := by
  induction h with
  | nil hgap => exact .nil hgap
  | one hbefore h hafter => exact .one hbefore (hpq h) hafter
  | cons hbefore h hafter _ hne ih => exact .cons hbefore (hpq h) hafter ih hne

/-- A row ends at the bracket behind it, and is a row of these members only. -/
theorem Row.unique (hopens : ∀ {cs a}, spells cs a → Opens cs) (h : Row (ReadAs spells) row as)
    (h' : Row spells row' as') (hd : isMark d) (hcomma : d ≠ ',')
    (heq : row ++ d :: x = row' ++ d :: y) : as = as' ∧ x = y := by
  have hmark : isMark ',' := rfl
  induction h generalizing row' as' with
  | nil hgap =>
    cases h' with
    | nil hgap' => exact ⟨rfl, (gap_unique hgap hgap' hd hd heq).2⟩
    | one hbefore h =>
      rw [List.append_assoc, List.append_assoc] at heq
      exact absurd heq ((hopens h).ne_mark hgap hbefore hd)
    | cons hbefore h =>
      rw [List.append_assoc, List.append_assoc] at heq
      exact absurd heq ((hopens h).ne_mark hgap hbefore hd)
  | one hbefore h hafter =>
    simp only [List.append_assoc] at heq
    cases h' with
    | nil hgap => exact absurd heq.symm (h.opens.ne_mark hgap hbefore hd)
    | one hbefore' h' hafter' =>
      simp only [List.append_assoc] at heq
      obtain ⟨rfl, -, hrest⟩ :=
        h.unique_between h' (hopens h') hbefore hbefore' hafter hafter' hd hd heq
      exact ⟨rfl, hrest⟩
    | cons hbefore' h' hafter' =>
      simp only [List.append_assoc, List.cons_append] at heq
      exact absurd
        (h.unique_between h' (hopens h') hbefore hbefore' hafter hafter' hd hmark heq).2.1 hcomma
  | cons hbefore h hafter _ _ ih =>
    simp only [List.append_assoc, List.cons_append] at heq
    cases h' with
    | nil hgap => exact absurd heq.symm (h.opens.ne_mark hgap hbefore hd)
    | one hbefore' h' hafter' =>
      simp only [List.append_assoc] at heq
      exact absurd
        (h.unique_between h' (hopens h') hbefore hbefore' hafter hafter' hmark hd heq).2.1.symm
        hcomma
    | cons hbefore' h' hafter' hrow =>
      simp only [List.append_assoc, List.cons_append] at heq
      obtain ⟨rfl, -, hrest⟩ :=
        h.unique_between h' (hopens h') hbefore hbefore' hafter hafter' hmark hmark heq
      obtain ⟨rfl, rfl⟩ := ih hrow hrest
      exact ⟨rfl, rfl⟩

/-- A literal opens a value. -/
theorem TextLiteral.opens {s : Text} (h : TextLiteral cs s) : Opens cs := by
  cases h with
  | mk => exact ⟨'"', _, rfl, rfl, rfl⟩

/-- A member opens as its name does. -/
theorem Member.opens {m : Text × α} (h : Member spells cs m) : Opens cs := by
  obtain ⟨⟨hname⟩, -, -, -⟩ := h
  exact ⟨'"', _, rfl, rfl, rfl⟩

/-- A member is told by its name and by what is named. -/
theorem Member.readAs {m : Text × α} (hopens : ∀ {cs a}, spells cs a → Opens cs)
    (h : Member (ReadAs spells) cs m) : ReadAs (Member spells) cs m where
  opens := h.opens
  unique := by
    intro cs' m' x y h' hx hy heq
    have hmark : isMark ':' := rfl
    obtain ⟨hname, hbefore, hafter, h⟩ := h
    obtain ⟨hname', hbefore', hafter', h'⟩ := h'
    simp only [List.append_assoc, List.cons_append] at heq
    obtain ⟨rfl, hcolon⟩ := hname.unique hname' heq
    obtain ⟨-, hvalue⟩ := gap_unique hbefore hbefore' hmark hmark hcolon
    obtain ⟨rfl, rfl⟩ :=
      h.unique h' hx hy (opens_unique hafter hafter' h.opens (hopens h') hvalue)
    exact ⟨rfl, rfl⟩

end Rows

/-! ## A text denotes one value -/

section Values

variable {cs cs' x y : List CodePoint} {v w : Value} {c : CodePoint}

/-- What is proved of values from what holds of the values in them is proved of all values. -/
theorem Spells.induct {p : List CodePoint → Value → Prop} (null : p ("null" : Text).toList .null)
    (bool : ∀ {b : Bool}, p (if b then "true" else "false" : Text).toList (.bool b))
    (number : ∀ {cs q}, NumberText cs q → p cs (.number q))
    (text : ∀ {cs s}, TextLiteral cs s → p cs (.text s))
    (array : ∀ {row vs}, Row p row vs → p (scalar '[' :: (row ++ [scalar ']'])) (.array vs))
    (object : ∀ {row members}, Row (Member p) row members →
      p (scalar '\x7b' :: (row ++ [scalar '\x7d'])) (.object members))
    (h : Spells cs v) : p cs v :=
  @Spells.rec (fun cs v _ => p cs v) (fun row vs _ => Row p row vs)
    (fun row members _ => Row (Member p) row members) (fun cs m _ => Member p cs m)
    null bool number text (fun _ h => array h) (fun _ h => object h)
    .nil (fun hbefore _ hafter h => .one hbefore h hafter)
    (fun hbefore _ hafter _ hne h hrest => .cons hbefore h hafter hrest hne)
    .nil (fun hbefore _ hafter h => .one hbefore h hafter)
    (fun hbefore _ hafter _ hne h hrest => .cons hbefore h hafter hrest hne)
    (fun hname hbefore hafter _ h => .mk hname hbefore hafter h) cs v h

/-- The sort of the values that begin with a character, as the index of its constructor. -/
def sortOf (c : CodePoint) : ℕ :=
  if c = 'n' then 0
  else if c = 't' ∨ c = 'f' then 1
  else if c = '"' then 3
  else if c = '[' then 4
  else if c = '\x7b' then 5
  else 2

/-- A number begins with a digit or a minus sign. -/
theorem NumberText.leads {q : ℚ} (h : NumberText cs q) :
    ∃ c more, cs = c :: more ∧ (c = '-' ∨ isDecimalDigit c) := by
  obtain ⟨hsign, hplus, ⟨⟨hne, hdigits⟩, -⟩, -, -⟩ := h
  cases hsign with
  | none =>
    obtain ⟨d, more, rfl⟩ := List.exists_cons_of_ne_nil hne
    exact ⟨d, _, rfl, .inr (hdigits d List.mem_cons_self)⟩
  | plus => exact absurd rfl hplus
  | minus => exact ⟨'-', _, rfl, .inl rfl⟩

/-- A value begins with a character that tells its sort. -/
theorem Spells.leads (h : Spells cs v) :
    ∃ c more, cs = c :: more ∧ v.ctorIdx = sortOf c ∧ isBlank c = false ∧ isMark c = false := by
  cases h with
  | null => exact ⟨'n', _, rfl, rfl, rfl, rfl⟩
  | @bool b =>
    cases b with
    | false => exact ⟨'f', _, rfl, rfl, rfl, rfl⟩
    | true => exact ⟨'t', _, rfl, rfl, rfl, rfl⟩
  | number h =>
    obtain ⟨c, more, rfl, rfl | hdigit⟩ := h.leads
    · exact ⟨'-', more, rfl, rfl, rfl, rfl⟩
    · have hne : ∀ d, isDecimalDigit d = false → c ≠ d := by
        rintro d hd rfl
        rw [hdigit] at hd
        cases hd
      refine ⟨c, more, rfl, ?_, ?_, ?_⟩
      · simp [sortOf, hne 'n' rfl, hne 't' rfl, hne 'f' rfl, hne '"' rfl, hne '[' rfl,
          hne '\x7b' rfl, Value.ctorIdx]
      · simp [isBlank, hne ' ' rfl, hne '\t' rfl, hne '\n' rfl, hne '\r' rfl]
      · simp [isMark, hne ',' rfl, hne ':' rfl, hne ']' rfl, hne '\x7d' rfl]
  | text h =>
    cases h with
    | mk => exact ⟨'"', _, rfl, rfl, rfl, rfl⟩
  | array => exact ⟨'[', _, rfl, rfl, rfl, rfl⟩
  | object => exact ⟨'\x7b', _, rfl, rfl, rfl, rfl⟩

/-- The text of a value opens a value. -/
theorem Spells.opens (h : Spells cs v) : Opens cs := by
  obtain ⟨c, more, hcs, -, hc⟩ := h.leads
  exact ⟨c, more, hcs, hc⟩

/-- The first character tells the sort of a value. -/
theorem Spells.ctorIdx_eq (h : Spells cs v) (heq : c :: x = cs ++ y) : v.ctorIdx = sortOf c := by
  obtain ⟨d, more, rfl, hsort, -⟩ := h.leads
  rw [(List.cons.inj heq).1, hsort]

/-- No number goes on where a value ends. -/
theorem Stops.not_isNumeric (h : Stops x) : ∀ c ∈ x.head?, isNumeric c = false := by
  intro c hc
  have hdelimiter := h c hc
  simp only [isBlank, isMark, Bool.or_eq_true, decide_eq_true_eq] at hdelimiter
  rcases hdelimiter with (((rfl | rfl) | rfl) | rfl) | ((rfl | rfl) | rfl) | rfl <;> rfl

/-- A value ends where a delimiter follows, and nothing else is written there. -/
theorem Spells.readAs (h : Spells cs v) : ReadAs Spells cs v := by
  refine h.induct (p := ReadAs Spells) ?null ?bool ?number ?text ?array ?object
  case null =>
    refine ⟨Spells.null.opens, fun {_ w _ _} h' _ _ heq => ?_⟩
    have hsort : w.ctorIdx = 0 := h'.ctorIdx_eq heq
    cases h' with
    | null => exact ⟨rfl, List.append_cancel_left heq⟩
    | _ => cases hsort
  case bool =>
    intro b
    refine ⟨Spells.bool.opens, fun {_ w _ _} h' _ _ heq => ?_⟩
    have hsort : w.ctorIdx = 1 := by
      cases b <;> exact h'.ctorIdx_eq heq
    cases h' with
    | @bool b' =>
      have hlead : b = b' := by
        cases b <;> cases b' <;> first | rfl | cases (List.cons.inj heq).1
      subst hlead
      exact ⟨rfl, List.append_cancel_left heq⟩
    | _ => cases hsort
  case number =>
    intro cs q h
    refine ⟨(Spells.number h).opens, fun h' hx hy heq => ?_⟩
    obtain ⟨c, more, hcs, hsort, -⟩ := (Spells.number h).leads
    have hsort' := h'.ctorIdx_eq (hcs ▸ heq)
    rw [← hsort] at hsort'
    cases h' with
    | number h' =>
      obtain ⟨rfl, hrest⟩ := h.unique h' hx.not_isNumeric hy.not_isNumeric heq
      exact ⟨rfl, hrest⟩
    | _ => cases hsort'
  case text =>
    intro cs s h
    refine ⟨h.opens, fun {_ w _ _} h' _ _ heq => ?_⟩
    have hsort : w.ctorIdx = 3 := by
      cases h with
      | mk => exact h'.ctorIdx_eq heq
    cases h' with
    | text h' =>
      obtain ⟨rfl, hrest⟩ := h.unique h' heq
      exact ⟨rfl, hrest⟩
    | _ => cases hsort
  case array =>
    intro row vs h
    refine ⟨⟨'[', _, rfl, rfl, rfl⟩, fun {_ w _ _} h' _ _ heq => ?_⟩
    have hsort : w.ctorIdx = 4 := h'.ctorIdx_eq heq
    cases h' with
    | array h' =>
      simp only [List.append_assoc, List.cons_append] at heq
      obtain ⟨rfl, hrest⟩ := h.unique Spells.opens h' rfl (by decide) (List.tail_eq_of_cons_eq heq)
      exact ⟨rfl, hrest⟩
    | _ => cases hsort
  case object =>
    intro row members h
    refine ⟨⟨'\x7b', _, rfl, rfl, rfl⟩, fun {_ w _ _} h' _ _ heq => ?_⟩
    have hsort : w.ctorIdx = 5 := h'.ctorIdx_eq heq
    cases h' with
    | object h' =>
      simp only [List.append_assoc, List.cons_append] at heq
      obtain ⟨rfl, hrest⟩ := (h.mono (Member.readAs Spells.opens)).unique Member.opens h' rfl
        (by decide) (List.tail_eq_of_cons_eq heq)
      exact ⟨rfl, hrest⟩
    | _ => cases hsort

/-- A text denotes at most one value. -/
theorem Document.unique {text : List CodePoint} (h : Document text v) (h' : Document text w) :
    v = w := by
  have hstops : ∀ {gap : List CodePoint}, IsGap gap → Stops gap := by
    intro gap hgap c hc
    simp [hgap c (List.mem_of_mem_head? hc)]
  generalize htext : text = text' at h'
  obtain ⟨hbefore, h, hafter⟩ := h
  obtain ⟨hbefore', h', hafter'⟩ := h'
  exact (h.readAs.unique h' (hstops hafter) (hstops hafter')
    (opens_unique hbefore hbefore' h.opens h'.opens htext)).1

end Values

end ByteLayout.Json
