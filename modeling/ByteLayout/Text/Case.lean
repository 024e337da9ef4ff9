import ByteLayout.Text

/-!
# Letter case

Words of the layout language compare without regard to case. Type names, reserved names and
keywords are ASCII, and `lower` brings a spelling to the form in which their tables list it.
Parameter names and the reserved names of terminators compare in capitals: `capitals` also knows
the two letters outside ASCII whose capital is an ASCII letter, the dotless `ı` and the long `ſ`.
-/

namespace ByteLayout.Text

/-- A word with its ASCII capitals made small; all other characters stay. -/
def lower (word : Text) : Text :=
  Text.ofList (word.toList.map CodePoint.toLower)

/-- The capital of a character, as far as that capital is one ASCII letter. -/
def capital (c : CodePoint) : CodePoint :=
  if c = 'ı' then 'I' else if c = 'ſ' then 'S' else c.toUpper

/-- A word in capitals. -/
def capitals (word : Text) : Text :=
  Text.ofList (word.toList.map capital)

/-- Small letters are as many as the letters. -/
@[simp] theorem length_lower (word : Text) : (lower word).length = word.length := by
  simp [lower]

/-- So are capitals. -/
@[simp] theorem length_capitals (word : Text) : (capitals word).length = word.length := by
  simp [capitals]

end ByteLayout.Text
