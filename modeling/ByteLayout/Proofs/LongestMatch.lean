import ByteLayout.Proofs.LexemeText
import ByteLayout.Proofs.Results

/-!
# The first lexeme is the longest one
 The classes of tokens are asked in a fixed order and the first answer counts. Two classes that both
answer at a place are names and array types, numbers and operators, or any class and the one of
single characters: a character begins lexemes of one family only (`family_eq`). Of two classes that
both answer, the one that is asked before has a lexeme that is at least as long
(`pairwise_outruns`).

`Cursor.token_longest`: the token at a place ends where the longest lexeme there does, and it is
illegal only if no other class has one.
-/

namespace ByteLayout

open Lexeme TokenClass

variable {c : CodePoint} {cs source : List CodePoint} {l l' : Lexeme} {cls : TokenClass}
  {classes : List TokenClass}

/-! ## Which class answers -/

theorem TokenClass.mem_all (cls : TokenClass) : cls ∈ all := by
  cases cls <;> decide

/-- An answer of some classes is that of one of them, and those before it have none. -/
theorem exists_class_of_firstLexeme? {answer : Except DigitLimit (Option Lexeme)}
    (h : firstLexeme? classes source = answer) (hne : answer ≠ .ok none) :
    ∃ before cls after, classes = before ++ cls :: after ∧
      (∀ b ∈ before, b.lexeme? source = .ok none) ∧ cls.lexeme? source = answer := by
  induction classes with
  | nil => exact absurd h.symm hne
  | cons cls classes ih =>
    rcases firstLexeme?_cons_iff.1 h with ⟨hcls, -⟩ | ⟨hcls, h⟩
    · exact ⟨[], cls, classes, rfl, by simp, hcls⟩
    · obtain ⟨before, cls', after, rfl, hbefore, hanswer⟩ := ih h
      exact ⟨cls :: before, cls', after, rfl, List.forall_mem_cons.2 ⟨hcls, hbefore⟩, hanswer⟩

/-- Only the last class finds illegal lexemes. -/
theorem kind_ne_illegal (h : cls.lexeme? source = .ok (some l)) (hcls : cls ≠ .illegal) :
    l.kind ≠ .illegal := by
  have hnames : ∀ kind ∈ nameKinds, kind ≠ .illegal := by decide
  cases cls with
  | text =>
    obtain ⟨body, -, rfl⟩ := Option.map_eq_some_iff.1 (Except.ok.inj h)
    simp
  | bytes =>
    obtain ⟨body, -, h⟩ := Option.bind_eq_some_iff.1 (Except.ok.inj h)
    obtain ⟨bytes, -, rfl⟩ := Option.map_eq_some_iff.1 h
    simp
  | typeArray =>
    obtain ⟨s, sign, digits, more, -, -, -, -, -, hword, -⟩ := typeArray?_split h
    simp [(Prod.mk.inj hword).1]
  | word =>
    obtain ⟨s, rest, -, -, -, hword, -⟩ := word?_split (Except.ok.inj h)
    have hkind : l.kind = (nameWord s).1 := congrArg Prod.fst hword
    rw [hkind]
    exact hnames _ (nameWord_mem s)
  | integer =>
    obtain ⟨sign, digits, rest, -, -, -, -, hword, -⟩ := integer?_split h
    simp [(Prod.mk.inj hword).1]
  | operator =>
    have h : operator? source = some l := Except.ok.inj h
    unfold operator? at h
    split at h <;> cases h <;> simp
  | punctuation =>
    have h : punctuation? source = some l := Except.ok.inj h
    unfold punctuation? at h
    split at h <;> cases h <;> simp
  | illegal => exact absurd rfl hcls

/-! ## Families -/

/-- The last class that may find the lexemes of a class, the class of single characters apart. -/
def TokenClass.family : TokenClass → TokenClass
  | .typeArray => .word
  | .integer => .operator
  | cls => cls

/-- The family of the lexemes that begin with a character. -/
def familyOf (c : CodePoint) : TokenClass :=
  if c = '"' then .text
  else if c = '\x60' then .bytes
  else if isLetter c then .word
  else if Text.isDecimalDigit c ∨ c ∈ [scalar '-', scalar '=', scalar '+', scalar '*'] then
    .operator
  else if c ∈ [scalar '(', scalar ')', scalar ',', scalar '$', scalar ':'] then .punctuation
  else .illegal

/-- What begins with a letter is of the family of words. -/
theorem familyOf_of_isLetter (hc : isLetter c) : familyOf c = .word := by
  rw [familyOf, if_neg (ne_of_isLetter hc (by decide)), if_neg (ne_of_isLetter hc (by decide)),
    if_pos hc]

/-- What begins with a digit is of the family of operators, as numbers are. -/
theorem familyOf_of_isDecimalDigit (hc : Text.isDecimalDigit c) : familyOf c = .operator := by
  rw [familyOf, if_neg (ne_of_isDecimalDigit hc (by decide)),
    if_neg (ne_of_isDecimalDigit hc (by decide)),
    if_neg (by rw [isLetter_of_isDecimalDigit hc]; simp), if_pos (.inl hc)]

/-- A name is of the family of words. -/
theorem familyOf_of_isName {s : Text} {rest : List CodePoint} (hs : IsName s)
    (h : c :: cs = s.toList ++ rest) : familyOf c = .word := by
  obtain ⟨d, ds, hlist, hd, -⟩ := hs
  rw [hlist] at h
  obtain rfl : c = d := (List.cons.inj h).1
  exact familyOf_of_isLetter hd

/-- A numeral is of the family of operators, with its sign or without. -/
theorem familyOf_of_isNumeral {sign digits rest : List CodePoint} (hnumeral : IsNumeral sign digits)
    (h : c :: cs = sign ++ (digits ++ rest)) : familyOf c = .operator := by
  rcases hnumeral.sign with rfl | rfl
  · obtain ⟨d, ds, rfl⟩ := List.exists_cons_of_ne_nil hnumeral.ne_nil
    obtain rfl : c = d := (List.cons.inj h).1
    exact familyOf_of_isDecimalDigit (hnumeral.isDigit c List.mem_cons_self)
  · obtain rfl : c = '-' := (List.cons.inj h).1
    rfl

/-- A class finds lexemes only where a character of its family is. -/
theorem family_eq (h : cls.lexeme? (c :: cs) = .ok (some l)) (hcls : cls ≠ .illegal) :
    cls.family = familyOf c := by
  cases cls with
  | text =>
    obtain ⟨body, hbody, -⟩ := Option.map_eq_some_iff.1 (Except.ok.inj h)
    obtain ⟨rest, hsource⟩ := bodyAt?_split hbody
    obtain rfl : c = '"' := (List.cons.inj hsource).1
    rfl
  | bytes =>
    obtain ⟨body, hbody, -⟩ := Option.bind_eq_some_iff.1 (Except.ok.inj h)
    obtain ⟨rest, hsource⟩ := bodyAt?_split hbody
    obtain rfl : c = '\x60' := (List.cons.inj hsource).1
    rfl
  | typeArray =>
    obtain ⟨s, sign, digits, more, hsource, hs, -⟩ := typeArray?_split h
    exact (familyOf_of_isName hs hsource).symm
  | word =>
    obtain ⟨s, rest, hsource, hs, -⟩ := word?_split (Except.ok.inj h)
    exact (familyOf_of_isName hs hsource).symm
  | integer =>
    obtain ⟨sign, digits, rest, hsource, hnumeral, -⟩ := integer?_split h
    exact (familyOf_of_isNumeral hnumeral hsource).symm
  | operator =>
    have h : operator? (c :: cs) = some l := Except.ok.inj h
    unfold operator? at h
    split at h
    case h_6 => cases h
    all_goals
      next heq =>
      obtain rfl := (List.cons.inj heq).1
      rfl
  | punctuation =>
    have h : punctuation? (c :: cs) = some l := Except.ok.inj h
    unfold punctuation? at h
    split at h
    case h_6 => cases h
    all_goals
      next heq =>
      obtain rfl := (List.cons.inj heq).1
      rfl
  | illegal => exact absurd rfl hcls

/-! ## Sizes -/

/-- Wherever two classes have a lexeme, that of the first one is at least as long. -/
def TokenClass.Outruns (a b : TokenClass) : Prop :=
  ∀ source l l', a.lexeme? source = .ok (some l) → b.lexeme? source = .ok (some l') →
    l'.size ≤ l.size

/-- At the end of a text no class matches. -/
theorem lexeme?_nil (cls : TokenClass) : cls.lexeme? [] = .ok none := by
  cases cls <;> rfl

/-- Every lexeme is as long as a single character. -/
theorem outruns_illegal (a : TokenClass) : a.Outruns .illegal := by
  intro source l l' _ hl'
  have hl' : illegal? source = some l' := Except.ok.inj hl'
  unfold illegal? at hl'
  split at hl'
  · cases hl'
  · cases hl'
    exact l.size_pos

/-- Classes of two families do not answer at the same place. -/
theorem outruns_of_family {a b : TokenClass} (ha : a ≠ .illegal) (hb : b ≠ .illegal)
    (h : a.family ≠ b.family) : a.Outruns b := by
  intro source l l' hl hl'
  cases source with
  | nil =>
    rw [lexeme?_nil] at hl
    cases hl
  | cons c cs => exact absurd ((family_eq hl ha).trans (family_eq hl' hb).symm) h

/-- An array type goes on behind its name. -/
theorem outruns_word : Outruns .typeArray .word := by
  intro source l l' hl hl'
  obtain ⟨s, sign, digits, more, rfl, hs, -, -, -, -, hsize⟩ := typeArray?_split hl
  have hbracket : ∀ x ∈ (scalar '[' :: (sign ++ (digits ++ scalar ']' :: more))).head?,
      isNameChar x = false := by
    simp
    decide
  obtain ⟨w, hw, -, hlength⟩ := word?_append hs hbracket
  obtain rfl : w = l' := Option.some.inj (hw.symm.trans (Except.ok.inj hl'))
  rw [hsize, hlength, List.length_append]
  exact Nat.le_add_right _ _

/-- An operator at the front of a number is its sign. -/
theorem outruns_operator : Outruns .integer .operator := by
  intro source l l' hl hl'
  replace hl' : operator? source = some l' := Except.ok.inj hl'
  unfold operator? at hl'
  split at hl'
  · next more =>
    have hnone : integer? (scalar '-' :: scalar '>' :: more) = .ok none :=
      integer?_of_no_digit (by simp [signAt]; decide)
    cases hnone.symm.trans hl
  case h_6 => cases hl'
  all_goals
    cases hl'
    exact l.size_pos

/-- Of two classes the one that is asked first has the longer lexeme, if both have one. -/
theorem pairwise_outruns : all.Pairwise Outruns := by
  have htable : all.Pairwise fun a b => b = .illegal ∨ (a = .typeArray ∧ b = .word) ∨
      (a = .integer ∧ b = .operator) ∨ (a ≠ .illegal ∧ b ≠ .illegal ∧ a.family ≠ b.family) := by
    decide
  refine htable.imp ?_
  rintro a b (rfl | ⟨rfl, rfl⟩ | ⟨rfl, rfl⟩ | ⟨ha, hb, hfamily⟩)
  · exact outruns_illegal a
  · exact outruns_word
  · exact outruns_operator
  · exact outruns_of_family ha hb hfamily

/-- The first lexeme is the longest one. -/
theorem size_le_of_firstLexeme? (h : firstLexeme? all source = .ok (some l))
    (hl' : cls.lexeme? source = .ok (some l')) : l'.size ≤ l.size := by
  obtain ⟨before, first, after, hall, hbefore, hl⟩ := exists_class_of_firstLexeme? h (by simp)
  have hmem : cls ∈ before ++ first :: after := hall ▸ mem_all cls
  have hpair := pairwise_outruns
  rw [hall, List.pairwise_append, List.pairwise_cons] at hpair
  rcases List.mem_append.1 hmem with hmem | hmem
  · cases (hbefore cls hmem).symm.trans hl'
  rcases List.mem_cons.1 hmem with rfl | hmem
  · cases hl.symm.trans hl'
    exact le_rfl
  · exact hpair.2.1.1 cls hmem source l l' hl hl'

/-- The first lexeme is illegal exactly if no class but the last one has one. -/
theorem illegal_iff_of_firstLexeme? (h : firstLexeme? all source = .ok (some l)) :
    l.kind = .illegal ↔ ∀ cls : TokenClass, cls ≠ .illegal → cls.lexeme? source = .ok none := by
  obtain ⟨before, first, after, hall, hbefore, hl⟩ := exists_class_of_firstLexeme? h (by simp)
  constructor
  · intro hkind cls hcls
    have hfirst : first = .illegal := by
      by_contra hne
      exact kind_ne_illegal hl hne hkind
    have hmem : cls ∈ before ++ first :: after := hall ▸ mem_all cls
    have hlast : all.Pairwise fun a _ => a ≠ .illegal := by decide
    rw [hall, List.pairwise_append, List.pairwise_cons] at hlast
    rcases List.mem_append.1 hmem with hmem | hmem
    · exact hbefore cls hmem
    rcases List.mem_cons.1 hmem with rfl | hmem
    · exact absurd hfirst hcls
    · exact absurd hfirst (hlast.2.1.1 cls hmem)
  · intro hnone
    have hfirst : first = .illegal := by
      by_contra hne
      cases (hnone first hne).symm.trans hl
    subst hfirst
    replace hl : illegal? source = some l := Except.ok.inj hl
    unfold illegal? at hl
    split at hl
    · cases hl
    · cases hl
      rfl

/-! ## Tokens -/

section Cursors

variable {cursor stop : Text.Cursor} {t : Token}

/-- A class matches at a cursor as it does on the rest of the text. -/
theorem Text.Cursor.lexeme?_eq_some_iff : cursor.lexeme? cls = .ok (some (t, stop)) ↔
    ∃ l, cls.lexeme? cursor.rest = .ok (some l) ∧ t = l.token cursor.position ∧
      stop = cursor.advance l.size := by
  simp only [lexeme?, Except.map_eq_ok, Option.map_eq_some_iff, Prod.mk.injEq]
  constructor
  · rintro ⟨found, hfound, l, rfl, rfl, rfl⟩
    exact ⟨l, hfound, rfl, rfl⟩
  · rintro ⟨l, hl, rfl, rfl⟩
    exact ⟨some l, hl, l, rfl, rfl, rfl⟩

/-- Nor does it match at a cursor if not on the rest of the text. -/
theorem Text.Cursor.lexeme?_eq_none_iff :
    cursor.lexeme? cls = .ok none ↔ cls.lexeme? cursor.rest = .ok none := by
  simp [lexeme?, Except.map_eq_ok]

/-- Where no class fails, the token is made of the first lexeme. -/
theorem Text.Cursor.exists_token (hrest : cursor.isAtEnd = false)
    (hok : ∀ cls, ∃ found, cursor.lexeme? cls = .ok found) :
    ∃ l, firstLexeme? all cursor.rest = .ok (some l) ∧
      cursor.token = .ok (l.token cursor.position, cursor.advance l.size) := by
  have hne : cursor.rest ≠ [] := by
    simpa [isAtEnd, rest] using hrest
  obtain ⟨c, cs, hcs⟩ := List.exists_cons_of_ne_nil hne
  cases hfirst : firstLexeme? all cursor.rest with
  | error e =>
    obtain ⟨-, cls, -, -, -, hcls⟩ := exists_class_of_firstLexeme? hfirst (by simp)
    obtain ⟨found, hfound⟩ := hok cls
    rw [lexeme?, hcls] at hfound
    cases hfound
  | ok found =>
    rw [hcs] at hfirst
    cases found with
    | none => exact absurd hfirst firstLexeme?_all_ne_none
    | some l =>
      have hl : lexemeAt c cs = .ok l := lexemeAt_eq_ok_iff.2 hfirst
      refine ⟨l, rfl, ?_⟩
      rw [token, hcs]
      simp only [hl]

/-- Where no class fails, the token at a place is the one that some class finds. It ends where the
one of any other class ends, or behind that, and it is illegal exactly if no class but that of
single characters finds one. -/
theorem Text.Cursor.token_longest (hrest : cursor.isAtEnd = false)
    (hok : ∀ cls, ∃ found, cursor.lexeme? cls = .ok found) :
    ∃ t stop, cursor.token = .ok (t, stop) ∧ (∃ cls, cursor.lexeme? cls = .ok (some (t, stop))) ∧
      (∀ cls t' stop', cursor.lexeme? cls = .ok (some (t', stop')) →
        stop'.position ≤ stop.position) ∧
      (t.kind = .illegal ↔
        ∀ cls : TokenClass, cls ≠ .illegal → cursor.lexeme? cls = .ok none) := by
  obtain ⟨l, hl, htoken⟩ := exists_token hrest hok
  refine ⟨_, _, htoken, ?_, ?_, ?_⟩
  · obtain ⟨-, cls, -, -, -, hcls⟩ := exists_class_of_firstLexeme? hl (by simp)
    exact ⟨cls, lexeme?_eq_some_iff.2 ⟨l, hcls, rfl, rfl⟩⟩
  · intro cls t' stop' h
    obtain ⟨l', hl', -, rfl⟩ := lexeme?_eq_some_iff.1 h
    have hsize := size_le_of_firstLexeme? hl hl'
    simp only [advance]
    omega
  · simp only [lexeme?_eq_none_iff]
    exact illegal_iff_of_firstLexeme? hl

/-- A place where an array type, its name and its first character are lexemes. -/
def sizedPlace : Text.Cursor :=
  ⟨("x bytes[-16]" : Text).toList, 2⟩

/-- An array is longer than the word that it begins with. -/
theorem Text.Cursor.token_longest_sizedPlace :
    (sizedPlace.isAtEnd = false ∧ ∀ cls, ∃ found, sizedPlace.lexeme? cls = .ok found) ∧
    ∃ t stop, sizedPlace.token = .ok (t, stop) ∧
      (∃ cls, sizedPlace.lexeme? cls = .ok (some (t, stop))) ∧
      (∀ cls t' stop', sizedPlace.lexeme? cls = .ok (some (t', stop')) →
        stop'.position ≤ stop.position) ∧
      (t.kind = .illegal ↔
        ∀ cls : TokenClass, cls ≠ .illegal → sizedPlace.lexeme? cls = .ok none) := by
  have hrest : sizedPlace.isAtEnd = false := by decide
  have hok : ∀ cls, ∃ found, sizedPlace.lexeme? cls = .ok found := by
    intro cls
    cases cls
    all_goals exact ⟨_, rfl⟩
  exact ⟨⟨hrest, hok⟩, token_longest hrest hok⟩

end Cursors

end ByteLayout
