/-!
# Texts

A text is a run of code points. Most code points are characters, but a text may also hold a
surrogate that is no half of a pair: it has a place among the code points and no character, so that
the text has no bytes in UTF-8. Literals are written as usual; `Text.ofString` makes them texts.
-/

namespace ByteLayout

/-! ## Code points -/

/-- A code point of a text. -/
inductive CodePoint where
  /-- A character. -/
  | scalar (c : Char)
  /-- A surrogate that stands alone, by its place among the surrogates. -/
  | surrogate (index : Fin 0x800)
  deriving DecidableEq, Repr

namespace CodePoint

instance : Coe Char CodePoint := ⟨scalar⟩

/-- The number of a code point. -/
def toNat : CodePoint → Nat
  | scalar c => c.toNat
  | surrogate index => 0xD800 + index

instance : LE CodePoint := ⟨fun a b => a.toNat ≤ b.toNat⟩

instance (a b : CodePoint) : Decidable (a ≤ b) :=
  inferInstanceAs (Decidable (a.toNat ≤ b.toNat))

/-- The code point of a number. -/
def ofNat (n : Nat) : CodePoint :=
  if h : 0xD800 ≤ n ∧ n < 0xE000 then surrogate ⟨n - 0xD800, by omega⟩ else scalar (.ofNat n)

/-- The character of a code point, unless it is a surrogate. -/
def scalar? : CodePoint → Option Char
  | scalar c => some c
  | surrogate _ => none

/-- Whether a code point is a surrogate. -/
def isSurrogate (c : CodePoint) : Bool :=
  c.scalar?.isNone

/-- The small letter of an ASCII capital; any other code point stays. -/
def toLower : CodePoint → CodePoint
  | scalar c => c.toLower
  | surrogate index => surrogate index

/-- The capital of an ASCII letter; any other code point stays. -/
def toUpper : CodePoint → CodePoint
  | scalar c => c.toUpper
  | surrogate index => surrogate index

@[simp] theorem toNat_scalar (c : Char) : (scalar c).toNat = c.toNat := rfl

@[simp] theorem scalar?_scalar (c : Char) : (scalar c).scalar? = some c := rfl

/-- Every code point has a number below that of the first plane that is none. -/
theorem toNat_lt (c : CodePoint) : c.toNat < 0x110000 := by
  cases c with
  | scalar c =>
    have hvalid : c.toNat < 0xD800 ∨ 0xDFFF < c.toNat ∧ c.toNat < 0x110000 := c.valid
    show c.toNat < 0x110000
    omega
  | surrogate index =>
    show 0xD800 + index.val < 0x110000
    omega

/-- Code points are told apart by their numbers. -/
theorem toNat_inj {a b : CodePoint} : a.toNat = b.toNat ↔ a = b := by
  constructor
  · intro h
    match a, b with
    | scalar c, scalar d => exact congrArg scalar (Char.toNat_inj.1 h)
    | surrogate i, surrogate j =>
      have hindex : i = j := Fin.ext (Nat.add_left_cancel h)
      rw [hindex]
    -- The characters leave the numbers of the surrogates out.
    | scalar c, surrogate i =>
      have hvalid : c.toNat < 0xD800 ∨ 0xDFFF < c.toNat ∧ c.toNat < 0x110000 := c.valid
      have hnumber : c.toNat = 0xD800 + i := h
      omega
    | surrogate i, scalar c =>
      have hvalid : c.toNat < 0xD800 ∨ 0xDFFF < c.toNat ∧ c.toNat < 0x110000 := c.valid
      have hnumber : 0xD800 + i = c.toNat := h
      omega
  · rintro rfl
    rfl

/-- Numbers below the surrogates are those of characters. -/
theorem ofNat_of_lt {n : Nat} (h : n < 0xD800) : ofNat n = scalar (.ofNat n) :=
  dif_neg (by omega)

/-- The code point of the number of a character is the character. -/
theorem ofNat_scalar (c : Char) : ofNat c.toNat = scalar c := by
  have hvalid : c.toNat < 0xD800 ∨ 0xDFFF < c.toNat ∧ c.toNat < 0x110000 := c.valid
  rw [ofNat, dif_neg (by omega), Char.ofNat_toNat]

/-- A code point is that of its number. -/
theorem ofNat_toNat (c : CodePoint) : ofNat c.toNat = c := by
  cases c with
  | scalar c => exact ofNat_scalar c
  | surrogate index =>
    have hrange : 0xD800 ≤ 0xD800 + index.val ∧ 0xD800 + index.val < 0xE000 := by omega
    show ofNat (0xD800 + index) = surrogate index
    rw [ofNat, dif_pos hrange]
    exact congrArg surrogate (Fin.ext (Nat.add_sub_cancel_left _ _))

end CodePoint

export CodePoint (scalar)

/-! ## Texts -/

/-- A run of code points. -/
structure Text where
  /-- The text of a list of code points. -/
  ofList ::
  /-- The code points in order. -/
  toList : List CodePoint
  deriving DecidableEq, Repr

namespace Text

/-- A text of characters. -/
def ofString (s : String) : Text :=
  ofList (s.toList.map .scalar)

instance : Coe String Text := ⟨ofString⟩

instance : Append Text := ⟨fun a b => ofList (a.toList ++ b.toList)⟩

/-- The number of code points. -/
def length (text : Text) : Nat :=
  text.toList.length

/-- The text of one code point. -/
def singleton (c : CodePoint) : Text :=
  ofList [c]

/-- Texts one after the other. -/
def join (texts : List Text) : Text :=
  ofList (texts.flatMap toList)

/-- Texts one after the other, with a text between any two. -/
def intercalate (between : Text) (texts : List Text) : Text :=
  ofList (between.toList.intercalate (texts.map toList))

variable {a b : Text} {s t : String}

@[simp] theorem toList_ofList {cs : List CodePoint} : (ofList cs).toList = cs := rfl

@[simp] theorem ofList_toList {text : Text} : ofList text.toList = text := rfl

/-- Texts are told apart by their code points. -/
theorem toList_inj : a.toList = b.toList ↔ a = b :=
  ⟨congrArg ofList, congrArg toList⟩

/-- Only the empty text has no code points. -/
theorem toList_eq_nil_iff : a.toList = [] ↔ a = "" :=
  toList_inj (b := "")

theorem ofList_inj {cs ds : List CodePoint} : ofList cs = ofList ds ↔ cs = ds :=
  ⟨congrArg toList, congrArg ofList⟩

@[simp] theorem toList_append : (a ++ b).toList = a.toList ++ b.toList := rfl

/-- Texts may be put together from either end. -/
theorem append_assoc (a b c : Text) : a ++ b ++ c = a ++ (b ++ c) :=
  toList_inj.1 (List.append_assoc a.toList b.toList c.toList)

@[simp] theorem length_toList : a.toList.length = a.length := rfl

@[simp] theorem length_ofList {cs : List CodePoint} : (ofList cs).length = cs.length := rfl

@[simp] theorem toList_singleton {c : CodePoint} : (singleton c).toList = [c] := rfl

@[simp] theorem toList_join {texts : List Text} : (join texts).toList = texts.flatMap toList := rfl

@[simp] theorem toList_intercalate {texts : List Text} :
    (intercalate a texts).toList = a.toList.intercalate (texts.map toList) := rfl

/-- The code points of characters are the characters. -/
@[simp] theorem toList_ofString : (ofString s).toList = s.toList.map .scalar := rfl

/-- Texts of characters are told apart by their characters. -/
@[simp] theorem ofString_inj : ofString s = ofString t ↔ s = t := by
  have hscalar : ∀ c d, scalar c = scalar d → c = d := fun _ _ => CodePoint.scalar.inj
  rw [← toList_inj, toList_ofString, toList_ofString, List.map_inj_right hscalar,
    String.toList_inj]

/-- Characters may be put together before or after they are a text. -/
@[simp] theorem ofString_append : ofString (s ++ t) = ofString s ++ ofString t := by
  rw [← toList_inj, toList_append, toList_ofString, String.toList_append, List.map_append]
  rfl

end Text

end ByteLayout
