import ByteLayout.Proofs.Faithfulness

/-!
# Variants of a text

Two things in a text say little: the case of its letters, and which characters end its lines.
`Varied letters lines old new` says that a text becomes another one when letters change their case,
if `letters`, and when carriage returns and their pairs with line feeds become line feeds, if
`lines`.

Parts of a text vary on their own (`Varied.append`, `Varied.split`), and characters that are neither
letters nor line ends stay (`Varied.steady_append`). A name becomes a name with the same letters in
lower case, and chunks of hexadecimal digits denote the same bytes (`Varied.spellsBytes_iff`).
-/

namespace ByteLayout

open Lexeme

variable {letters lines : Bool} {c c' : CodePoint}
  {a b cs cs' gap old new rest rest' text text' : List CodePoint}

/-! ## Characters -/

/-- A character is the same in both texts, or a letter in another case, or a line end. -/
def CharVaries (letters lines : Bool) (c c' : CodePoint) : Prop :=
  c = c' ∨ (letters = true ∧ c.toLower = c'.toLower) ∨ (lines = true ∧ c = '\r' ∧ c' = '\n')

/-- The function knows neither the case of a letter nor which character ends a line. -/
def IsBlind {α : Type} (f : CodePoint → α) : Prop :=
  (∀ n < 26, f (scalar (Char.ofNat (65 + n))).toLower = f (scalar (Char.ofNat (65 + n)))) ∧
    f '\r' = f '\n'

instance {α : Type} [DecidableEq α] (f : CodePoint → α) : Decidable (IsBlind f) :=
  inferInstanceAs (Decidable (_ ∧ _))

/-- What is the same for a capital and its small letter is the same for every letter in both
cases. -/
theorem IsBlind.apply_toLower {α : Type} {f : CodePoint → α} (hf : IsBlind f) (c : CodePoint) :
    f c.toLower = f c := by
  cases c with
  | surrogate index => rfl
  | scalar c =>
    by_cases hc : 65 ≤ c.toNat ∧ c.toNat ≤ 90
    · have hcapital := hf.1 (c.toNat - 65) (by omega)
      rw [Nat.add_sub_cancel' hc.1, Char.ofNat_toNat] at hcapital
      exact hcapital
    · have hsmall : (scalar c).toLower = scalar c := congrArg scalar (dif_neg hc)
      rw [hsmall]

/-- What is blind to case and line ends is the same for both characters. -/
theorem CharVaries.congr {α : Type} {f : CodePoint → α} (h : CharVaries letters lines c c')
    (hf : IsBlind f) : f c = f c' := by
  rcases h with rfl | ⟨-, hcase⟩ | ⟨-, rfl, rfl⟩
  · rfl
  · rw [← hf.apply_toLower c, hcase, hf.apply_toLower c']
  · exact hf.2

/-- The character is neither a letter nor a line end. -/
def isSteady (c : CodePoint) : Bool :=
  !isLetter c && !isLineEnd c

/-- Whether a character is steady is the same for its variants. -/
theorem isBlind_isSteady : IsBlind isSteady := by
  decide

/-- A steady character is the same in both texts. -/
theorem CharVaries.eq_of_steady (h : CharVaries letters lines c c') (hc : isSteady c) : c = c' := by
  have hc' : isSteady c' := by rwa [← h.congr isBlind_isSteady]
  have hsame : (if isSteady c then some c else none) = if isSteady c' then some c' else none :=
    h.congr (f := fun c => if isSteady c then some c else none) (by decide)
  rw [if_pos hc, if_pos hc'] at hsame
  exact Option.some.inj hsame

/-- A character that becomes a steady one is that character. -/
theorem CharVaries.eq_of_steady_right (h : CharVaries letters lines c c') (hc' : isSteady c') :
    c = c' :=
  h.eq_of_steady (by rwa [h.congr isBlind_isSteady])

/-! ## Texts -/

/-- The first text becomes the second one when letters change their case and line ends become line
feeds, as far as they may. -/
inductive Varied (letters lines : Bool) : List CodePoint → List CodePoint → Prop
  /-- Nothing. -/
  | nil : Varied letters lines [] []
  /-- A character. -/
  | char {c c' : CodePoint} {cs cs' : List CodePoint} (hc : CharVaries letters lines c c')
    (h : Varied letters lines cs cs') : Varied letters lines (c :: cs) (c' :: cs')
  /-- A carriage return and a line feed, which become one line feed. -/
  | lineEnd {cs cs' : List CodePoint} (hlines : lines = true) (h : Varied letters lines cs cs') :
    Varied letters lines (scalar '\r' :: scalar '\n' :: cs) (scalar '\n' :: cs')

namespace Varied

theorem refl (cs : List CodePoint) : Varied letters lines cs cs := by
  induction cs with
  | nil => exact .nil
  | cons c cs ih => exact .char (.inl rfl) ih

/-- Texts that vary in single characters only. -/
theorem of_forall₂ (h : List.Forall₂ (CharVaries letters lines) cs cs') :
    Varied letters lines cs cs' := by
  induction h with
  | nil => exact .nil
  | cons hc _ ih => exact .char hc ih

/-- Without carriage returns a text varies in single characters only. -/
theorem forall₂ (h : Varied letters lines cs cs') (hcs : scalar '\r' ∉ cs) :
    List.Forall₂ (CharVaries letters lines) cs cs' := by
  induction h with
  | nil => exact .nil
  | char hc _ ih => exact .cons hc (ih fun hmem => hcs (List.mem_cons_of_mem _ hmem))
  | lineEnd => exact absurd List.mem_cons_self hcs

/-- Where line ends are kept, so is the length. -/
theorem length_eq (h : Varied letters false cs cs') : cs.length = cs'.length := by
  induction h with
  | nil => rfl
  | char _ _ ih => rw [List.length_cons, List.length_cons, ih]
  | lineEnd hlines => cases hlines

/-- A character of a variant comes from one of the text. -/
theorem exists_left (h : Varied letters lines cs cs') (hc : c' ∈ cs') :
    ∃ c ∈ cs, CharVaries letters lines c c' := by
  induction h with
  | nil => cases hc
  | char hr _ ih =>
    rcases List.mem_cons.1 hc with rfl | hc
    · exact ⟨_, List.mem_cons_self, hr⟩
    · obtain ⟨c, hmem, hr⟩ := ih hc
      exact ⟨c, List.mem_cons_of_mem _ hmem, hr⟩
  | lineEnd hlines _ ih =>
    rcases List.mem_cons.1 hc with rfl | hc
    · exact ⟨'\r', List.mem_cons_self, .inr (.inr ⟨hlines, rfl, rfl⟩)⟩
    · obtain ⟨c, hmem, hr⟩ := ih hc
      exact ⟨c, List.mem_cons_of_mem _ (List.mem_cons_of_mem _ hmem), hr⟩

/-- A character of a text goes to one of the variant. -/
theorem exists_right (h : Varied letters lines cs cs') (hc : c ∈ cs) :
    ∃ c' ∈ cs', CharVaries letters lines c c' := by
  induction h with
  | nil => cases hc
  | char hr _ ih =>
    rcases List.mem_cons.1 hc with rfl | hc
    · exact ⟨_, List.mem_cons_self, hr⟩
    · obtain ⟨c', hmem, hr⟩ := ih hc
      exact ⟨c', List.mem_cons_of_mem _ hmem, hr⟩
  | lineEnd hlines _ ih =>
    rcases List.mem_cons.1 hc with rfl | hc
    · exact ⟨'\n', List.mem_cons_self, .inr (.inr ⟨hlines, rfl, rfl⟩)⟩
    rcases List.mem_cons.1 hc with rfl | hc
    · exact ⟨'\n', List.mem_cons_self, .inl rfl⟩
    · obtain ⟨c', hmem, hr⟩ := ih hc
      exact ⟨c', List.mem_cons_of_mem _ hmem, hr⟩

/-- Steady characters are in both texts. -/
theorem mem_iff (h : Varied letters lines cs cs') (hc : isSteady c) : c ∈ cs ↔ c ∈ cs' := by
  constructor
  · intro hmem
    obtain ⟨c', hmem', hr⟩ := h.exists_right hmem
    rwa [hr.eq_of_steady hc]
  · intro hmem
    obtain ⟨c', hmem', hr⟩ := h.exists_left hmem
    rwa [← hr.eq_of_steady_right hc]

/-- The first character of a variant. -/
theorem head (h : Varied letters lines cs cs') (hc : c' ∈ cs'.head?) :
    ∃ c ∈ cs.head?, CharVaries letters lines c c' := by
  cases h with
  | nil => cases hc
  | char hr =>
    obtain rfl := Option.some.inj hc
    exact ⟨_, rfl, hr⟩
  | lineEnd hlines =>
    obtain rfl := Option.some.inj hc
    exact ⟨'\r', rfl, .inr (.inr ⟨hlines, rfl, rfl⟩)⟩

/-- Only the empty text has an empty variant. -/
theorem eq_nil_iff (h : Varied letters lines cs cs') : cs = [] ↔ cs' = [] := by
  cases h <;> simp

/-- Texts one after the other. -/
theorem append (ha : Varied letters lines cs cs') (hb : Varied letters lines rest rest') :
    Varied letters lines (cs ++ rest) (cs' ++ rest') := by
  induction ha with
  | nil => exact hb
  | char hc _ ih => exact .char hc ih
  | lineEnd hlines _ ih => exact .lineEnd hlines ih

/-- Characters of a class that is blind to case and line ends. -/
theorem forall_iff {p : CodePoint → Bool} (h : Varied letters lines cs cs') (hp : IsBlind p) :
    (∀ c ∈ cs, p c) ↔ ∀ c ∈ cs', p c := by
  constructor
  · intro hall c' hmem
    obtain ⟨c, hc, hr⟩ := h.exists_left hmem
    rw [← hr.congr hp]
    exact hall c hc
  · intro hall c hmem
    obtain ⟨c', hc', hr⟩ := h.exists_right hmem
    rw [hr.congr hp]
    exact hall c' hc'

/-- The first character of a variant is of the same class, if the class is blind. -/
theorem forall_head {p : CodePoint → Bool} {b : Bool} (h : Varied letters lines cs cs')
    (hp : IsBlind p) (hcs : ∀ c ∈ cs.head?, p c = b) :
    ∀ c' ∈ cs'.head?, p c' = b := by
  intro c' hc'
  obtain ⟨c, hc, hr⟩ := h.head hc'
  rw [← hr.congr hp]
  exact hcs c hc

/-- Without carriage returns only letters vary. -/
theorem keepLines (h : Varied letters lines cs cs') (hcs : scalar '\r' ∉ cs) :
    Varied letters false cs cs' := by
  induction h with
  | nil => exact .nil
  | @char c c' cs cs' hc _ ih =>
    rw [List.mem_cons, not_or] at hcs
    refine .char ?_ (ih hcs.2)
    rcases hc with rfl | hc | ⟨-, rfl, -⟩
    · exact .inl rfl
    · exact .inr (.inl hc)
    · exact absurd rfl hcs.1
  | lineEnd => exact absurd List.mem_cons_self hcs

/-- Letters in another case are the same in lower case. -/
theorem map_toLower (h : Varied letters false cs cs') :
    cs.map CodePoint.toLower = cs'.map CodePoint.toLower := by
  induction h with
  | nil => rfl
  | char hc _ ih =>
    rw [List.map_cons, List.map_cons, ih]
    rcases hc with rfl | ⟨-, hcase⟩ | ⟨hlines, -⟩
    · rfl
    · rw [hcase]
    · cases hlines
  | lineEnd hlines => cases hlines

/-- Texts that are the same in lower case differ in the case of letters. -/
theorem of_map_toLower (h : cs.map CodePoint.toLower = cs'.map CodePoint.toLower) :
    Varied true lines cs cs' := by
  rw [← List.forall₂_eq_eq_eq, List.forall₂_map_left_iff, List.forall₂_map_right_iff] at h
  exact .of_forall₂ (h.imp fun _ _ hcase => .inr (.inl ⟨rfl, hcase⟩))

/-- A text where neither letters nor line ends vary stays. -/
theorem eq_of_none (h : Varied false false cs cs') : cs = cs' := by
  induction h with
  | nil => rfl
  | char hc _ ih =>
    rcases hc with rfl | ⟨hletters, -⟩ | ⟨hlines, -⟩
    · rw [ih]
    · cases hletters
    · cases hlines
  | lineEnd hlines => cases hlines

/-- Two parts of a text vary apart, unless a pair at a line end is cut. -/
theorem split (h : Varied letters lines (a ++ b) new)
    (hjoin : a.getLast? = some (scalar '\r') → b.head? ≠ some (scalar '\n')) :
    ∃ a' b', new = a' ++ b' ∧ Varied letters lines a a' ∧ Varied letters lines b b' := by
  generalize hwhole : a ++ b = whole at h
  induction h generalizing a with
  | nil =>
    obtain ⟨rfl, rfl⟩ := List.append_eq_nil_iff.1 hwhole
    exact ⟨[], [], rfl, .nil, .nil⟩
  | @char c c' cs cs' hc h ih =>
    cases a with
    | nil =>
      obtain rfl : b = c :: cs := hwhole
      exact ⟨[], _, rfl, .nil, .char hc h⟩
    | cons x a =>
      obtain ⟨rfl, rfl⟩ := List.cons.inj hwhole
      have hjoin : a.getLast? = some (scalar '\r') → b.head? ≠ some (scalar '\n') := fun hlast =>
        hjoin (by rw [List.getLast?_cons, hlast]; rfl)
      obtain ⟨a', b', rfl, ha, hb⟩ := ih hjoin rfl
      exact ⟨c' :: a', b', rfl, .char hc ha, hb⟩
  | @lineEnd cs cs' hlines h ih =>
    match a, hwhole with
    | [], hwhole =>
      obtain rfl : b = scalar '\r' :: scalar '\n' :: cs := hwhole
      exact ⟨[], _, rfl, .nil, .lineEnd hlines h⟩
    | [x], hwhole =>
      obtain ⟨rfl, rfl⟩ := List.cons.inj hwhole
      exact absurd rfl (hjoin rfl)
    | x :: y :: a, hwhole =>
      simp only [List.cons_append, List.cons.injEq] at hwhole
      obtain ⟨rfl, rfl, rfl⟩ := hwhole
      have hjoin : a.getLast? = some (scalar '\r') → b.head? ≠ some (scalar '\n') := fun hlast =>
        hjoin (by rw [List.getLast?_cons, List.getLast?_cons, hlast]; rfl)
      obtain ⟨a', b', rfl, ha, hb⟩ := ih hjoin rfl
      exact ⟨scalar '\n' :: a', b', rfl, .lineEnd hlines ha, hb⟩

/-- Steady characters at the front stay. -/
theorem steady_append (h : Varied letters lines (text ++ rest) new) (htext : text.all isSteady) :
    ∃ rest', new = text ++ rest' ∧ Varied letters lines rest rest' := by
  induction text generalizing new with
  | nil => exact ⟨new, rfl, h⟩
  | cons c text ih =>
    rw [List.all_cons, Bool.and_eq_true] at htext
    generalize hwhole : c :: text ++ rest = whole at h
    cases h with
    | nil => cases hwhole
    | char hc h =>
      obtain ⟨rfl, rfl⟩ := List.cons.inj hwhole
      obtain ⟨rest', rfl, hrest⟩ := ih h htext.2
      exact ⟨rest', by rw [← hc.eq_of_steady htext.1, List.cons_append], hrest⟩
    | lineEnd =>
      obtain ⟨rfl, -⟩ := List.cons.inj hwhole
      exact absurd htext.1 (by decide)

/-- A steady character at the front stays. -/
theorem steady_cons (h : Varied letters lines (c :: rest) new) (hc : isSteady c) :
    ∃ rest', new = c :: rest' ∧ Varied letters lines rest rest' := by
  rw [← List.singleton_append] at h
  exact h.steady_append (by simpa using hc)

/-- Steady characters at the front of a variant were there before. -/
theorem of_steady_append (h : Varied letters lines old (text ++ new)) (htext : text.all isSteady) :
    ∃ rest, old = text ++ rest ∧ Varied letters lines rest new := by
  induction text generalizing old with
  | nil => exact ⟨old, rfl, h⟩
  | cons c text ih =>
    rw [List.all_cons, Bool.and_eq_true] at htext
    cases h with
    | char hc h =>
      obtain ⟨rest, rfl, hrest⟩ := ih h htext.2
      exact ⟨rest, by rw [hc.eq_of_steady_right htext.1, List.cons_append], hrest⟩
    | lineEnd => exact absurd htext.1 (by decide)

/-- A text of steady characters stays. -/
theorem eq_of_steady (h : Varied letters lines text text') (htext : text.all isSteady) :
    text' = text := by
  rw [← List.append_nil text] at h
  obtain ⟨rest', rfl, hrest⟩ := h.steady_append htext
  rw [hrest.eq_nil_iff.1 rfl, List.append_nil]

/-- The variant of a text between marks. -/
theorem enclosed {mark : CodePoint} (h : Varied letters lines (mark :: (text ++ [mark])) new)
    (hmark : isSteady mark) :
    ∃ text', new = mark :: (text' ++ [mark]) ∧ Varied letters lines text text' := by
  obtain ⟨rest', rfl, hrest⟩ := h.steady_cons hmark
  obtain ⟨text', last, rfl, htext, hlast⟩ := hrest.split fun _ hfeed => by
    obtain rfl := Option.some.inj hfeed
    exact absurd hmark (by decide)
  exact ⟨text', by rw [hlast.eq_of_steady (by simpa using hmark)], htext⟩

/-- The variant of a text that can stand between quotation marks. -/
theorem isQuotable {s : Text} (h : Varied letters lines s.toList new) (hs : IsQuotable s) :
    ∃ s' : Text, new = s'.toList ∧ IsQuotable s' := by
  refine ⟨Text.ofList new, Text.toList_ofList.symm, ?_, ?_⟩
  · intro hempty
    have hnew : new = [] := by simpa using congrArg Text.toList hempty
    exact hs.1 (Text.toList_eq_nil_iff.1 (h.eq_nil_iff.2 hnew))
  · rw [Text.toList_ofList, ← h.mem_iff (by decide)]
    exact hs.2

end Varied

/-! ## Names -/

/-- Whether it is a letter is the same for its variants. -/
theorem isBlind_isLetter : IsBlind isLetter := by
  decide

/-- Whether it may be part of a name is the same for its variants. -/
theorem isBlind_isNameChar : IsBlind isNameChar := by
  decide

/-- A name has no carriage return. -/
theorem not_mem_of_isName {s : Text} (hs : IsName s) : scalar '\r' ∉ s.toList := by
  obtain ⟨c, cs, hs, hc, hcs⟩ := hs
  rw [hs, List.mem_cons]
  rintro (rfl | hmem)
  · exact absurd hc (by decide)
  · exact absurd (hcs _ hmem) (by decide)

/-- The variant of a name is a name with the same letters in lower case. -/
theorem Varied.isName {s : Text} (h : Varied letters lines s.toList new) (hs : IsName s) :
    ∃ s' : Text, new = s'.toList ∧ IsName s' ∧ Varied letters false s.toList s'.toList ∧
      Text.lower s = Text.lower s' := by
  have hletters := h.keepLines (not_mem_of_isName hs)
  refine ⟨Text.ofList new, Text.toList_ofList.symm, ?_, by rwa [Text.toList_ofList], ?_⟩
  · obtain ⟨c, cs, hs, hc, hcs⟩ := hs
    rw [hs] at hletters
    clear h
    cases hletters with
    | char hr hrest =>
      refine ⟨_, _, Text.toList_ofList, ?_, (hrest.forall_iff isBlind_isNameChar).1 hcs⟩
      rwa [← hr.congr isBlind_isLetter]
    | lineEnd hlines => cases hlines
  · rw [Text.lower, Text.lower, Text.toList_ofList, hletters.map_toLower]

/-! ## Bytes -/

/-- Whether a character can stand in a body that spells bytes. -/
def isByteChar (c : CodePoint) : Bool :=
  Text.isHexDigit c || c = ' '

/-- Whether it may be part of bytes is the same for its variants. -/
theorem isBlind_isByteChar : IsBlind isByteChar := by
  decide

/-- What spells bytes is hexadecimal digits and spaces. -/
theorem SpellsBytes.isByteChar {body : List CodePoint} {bytes : List UInt8}
    (h : SpellsBytes body bytes) : ∀ c ∈ body, isByteChar c := by
  obtain ⟨chunks, -, rfl, h⟩ := h
  have hchunk : ∀ chunk b, SpellsByte chunk b → ∀ c ∈ chunk, ByteLayout.isByteChar c :=
    fun chunk b hb c hc => by simp [ByteLayout.isByteChar, hb.isDigit c hc]
  induction h with
  | nil => simp
  | @cons chunk b chunks _ hb h ih =>
    cases chunks with
    | nil => simpa using hchunk chunk b hb
    | cons next chunks =>
      rw [List.intercalate_cons_cons, List.append_assoc, List.singleton_append]
      exact List.forall_mem_append.2 ⟨hchunk chunk b hb, List.forall_mem_cons.2 ⟨rfl, ih⟩⟩

/-- The number that digits denote does not depend on their case. -/
theorem ofDigits_of_forall₂ {base : Nat} (h : List.Forall₂ (CharVaries letters lines) cs cs') :
    Text.ofDigits base cs = Text.ofDigits base cs' := by
  unfold Text.ofDigits
  generalize 0 = n
  induction h generalizing n with
  | nil => rfl
  | @cons c c' _ _ hc _ ih =>
    have hvalue : Text.digitValue c = Text.digitValue c' := hc.congr (by decide)
    rw [List.foldl_cons, List.foldl_cons, hvalue, ih]

/-- The byte of a chunk does not depend on the case of its digits. -/
theorem chunkByte?_of_forall₂ (h : List.Forall₂ (CharVaries letters lines) cs cs') :
    chunkByte? cs = chunkByte? cs' := by
  have hvaried := Varied.of_forall₂ h
  have hdigits : cs.all Text.isHexDigit = cs'.all Text.isHexDigit := by
    rw [Bool.eq_iff_iff, List.all_eq_true, List.all_eq_true]
    exact hvaried.forall_iff (by decide)
  simp only [chunkByte?, ne_eq, hvaried.eq_nil_iff, hdigits, ofDigits_of_forall₂ h]

/-- A variant of a body spells the same bytes. -/
theorem Varied.spellsBytes_iff {bytes : List UInt8} (h : Varied letters lines text text') :
    SpellsBytes text bytes ↔ SpellsBytes text' bytes := by
  have hsame : (∀ c ∈ text, isByteChar c) → (SpellsBytes text bytes ↔ SpellsBytes text' bytes) := by
    intro hchars
    have hreturn : scalar '\r' ∉ text := fun hmem => absurd (hchars _ hmem) (by decide)
    have hspace : ∀ c c', CharVaries letters lines c c' → (c == ' ') = (c' == ' ') :=
      fun c c' hc => hc.congr (f := (· == ' ')) (by decide)
    have hparts := forall₂_splitOnP (h.forall₂ hreturn) hspace
    have hbytes : (splitAtSpaces text).mapM chunkByte? = (splitAtSpaces text').mapM chunkByte? :=
      mapM_eq_of_forall₂ (hparts.imp fun _ _ => chunkByte?_of_forall₂)
    rw [← mapM_chunkByte?_iff, hbytes, mapM_chunkByte?_iff]
  constructor
  · intro hspells
    exact (hsame hspells.isByteChar).1 hspells
  · intro hspells
    refine (hsame ?_).2 hspells
    exact (h.forall_iff isBlind_isByteChar).2 hspells.isByteChar

end ByteLayout
