import ByteLayout.Text.Numeral

/-!
# JSON objects

Flat JSON objects on one line: members in a given order, each a name with a text or a number, with
`", "` between two members and `": "` between name and value. In a text the double quote, the
backslash and the control characters below the space are escaped, those with a letter of their own
by that letter; every other character stands for itself.
-/

namespace ByteLayout.Text

/-- How a character stands in a JSON text. -/
def jsonChar (c : CodePoint) : List CodePoint :=
  if c = '"' then [scalar '\\', scalar '"']
  else if c = '\\' then [scalar '\\', scalar '\\']
  else if c = '\n' then [scalar '\\', scalar 'n']
  else if c = '\r' then [scalar '\\', scalar 'r']
  else if c = '\t' then [scalar '\\', scalar 't']
  else if c = '\x0c' then [scalar '\\', scalar 'f']
  else if c = '\x08' then [scalar '\\', scalar 'b']
  else if c.toNat < 0x20 then scalar '\\' :: scalar 'u' :: hexOfWidth 4 c.toNat
  else [c]

/-- A text in JSON. -/
def jsonText (text : Text) : Text :=
  ofList (scalar '"' :: (text.toList.flatMap jsonChar ++ [scalar '"']))

/-- The value of a member. -/
inductive JsonScalar where
  /-- A text. -/
  | text (text : Text)
  /-- A number. -/
  | number (n : Int)
  deriving DecidableEq, Repr

/-- A value in JSON. -/
def JsonScalar.render : JsonScalar → Text
  | text s => jsonText s
  | number n => decimal n

/-- An object of members in JSON. -/
def jsonObject (members : List (Text × JsonScalar)) : Text :=
  "\x7b" ++
    intercalate ", " (members.map fun (name, value) => jsonText name ++ ": " ++ value.render) ++
    "\x7d"

end ByteLayout.Text
