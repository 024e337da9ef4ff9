import ByteLayout.Text.Numeral
import ByteLayout.Text.ScriptDigit
import ByteLayout.Text.WhiteSpace

/-!
# Command line arguments

The words after the name of the command. One of them is the path of the input; the others are
options. An option that takes a value takes it from the next word, or after a `=` in its own. The
long name of an option may be cut short as long as no other one begins the same way, and short
flags may share one dash. A word that begins with a dash is an option, unless it is a dash alone, a
negative number or has a space in it; after `--` no word is one. Numbers are read in the decimal
digits of all scripts.
-/

namespace ByteLayout.CommandLine

/-- What is written to the standard output. -/
inductive Dump where
  /-- A message. -/
  | bytes
  /-- The tokens of the text, one on a line. -/
  | tokens
  /-- The program as text. -/
  | statements
  deriving DecidableEq, Repr

/-- The dump of a name. -/
def Dump.ofName? (name : String) : Option Dump :=
  if name = "bytes" then some .bytes
  else if name = "tokens" then some .tokens
  else if name = "statements" then some .statements
  else none

/-- What a run is asked for. -/
structure Options where
  /-- The path of the input. -/
  input : String
  /-- What is written. -/
  dump : Dump := .bytes
  /-- The number that the random source begins with. -/
  seed : Option Int := none
  /-- Whether the terminator ends the message. -/
  appendTerminator : Bool := false
  /-- Whether all records and whole diagnostics are shown. -/
  verbose : Bool := false
  deriving DecidableEq, Repr

/-- What a command line asks for. -/
inductive Request where
  /-- A run. -/
  | run (o : Options)
  /-- An explanation of the command. -/
  | help
  /-- Nothing: the words are no command. -/
  | invalid
  deriving DecidableEq, Repr

/-! ## Options -/

/-- The options. -/
inductive Flag where
  /-- Explains the command. -/
  | help
  /-- Sets the number that the random source begins with. -/
  | seed
  /-- Chooses what is written. -/
  | dump
  /-- Ends the message with the terminator. -/
  | appendTerminator
  /-- Shows all records and whole diagnostics. -/
  | verbose
  deriving DecidableEq, Repr

namespace Flag

/-- Whether an option takes a value. -/
def takesValue : Flag → Bool
  | seed | dump => true
  | help | appendTerminator | verbose => false

/-- The names of options after two dashes. -/
def longNames : List (String × Flag) :=
  [("--help", help), ("--seed", seed), ("--dump", dump), ("--append-term", appendTerminator),
    ("--verbose", verbose)]

/-- The option of a letter after one dash. -/
def ofLetter? (c : Char) : Option Flag :=
  if c = 'h' then some help else if c = 'v' then some verbose else none

end Flag

/-- What a word is on its own. -/
inductive Word where
  /-- A value or a path. -/
  | plain (text : String)
  /-- The word after which no word is an option. -/
  | separator
  /-- An option with the value after its `=`. -/
  | option (flag : Flag) (value : Option String)
  /-- The flags after one dash, up to the first letter that is none. -/
  | flags (fs : List Flag) (complete : Bool)
  /-- No option, though it looks like one. -/
  | unknown
  /-- Flags of which one is given a value. -/
  | broken
  deriving DecidableEq, Repr

/-- The characters before the first `=`, and those after it if there is one. -/
def splitValue (cs : List Char) : List Char × Option (List Char) :=
  match cs.dropWhile (· != '=') with
  | [] => (cs, none)
  | _ :: value => (cs.takeWhile (· != '='), some value)

/-- Characters without the line feed at their end, if there is one. -/
def withoutFinalNewline (cs : List Char) : List Char :=
  if cs.getLast? = some '\n' then cs.dropLast else cs

/-- Whether a word is a number after its dash: digits, or a fraction. A line feed may follow. -/
def isNumberAfterDash (afterDash : List Char) : Bool :=
  let cs := withoutFinalNewline afterDash
  match cs.dropWhile Text.isScriptDigit with
  | [] => !cs.isEmpty
  | '.' :: fraction => !fraction.isEmpty && fraction.all Text.isScriptDigit
  | _ => false

/-- A word that begins with a dash and is no option. -/
def Word.ofDashed (text : String) (afterDash : List Char) : Word :=
  if isNumberAfterDash afterDash || afterDash.contains ' ' then .plain text else .unknown

/-- A word that begins with two dashes; `none` if it is short for several names. -/
def Word.ofLong? (text : String) : Option Word :=
  let (name, value) := splitValue text.toList
  let value := value.map String.ofList
  match Flag.longNames.find? fun entry => entry.1.toList = name with
  | some (_, flag) => some (.option flag value)
  | none =>
    match Flag.longNames.filter fun entry => name.isPrefixOf entry.1.toList with
    | [] => some (.ofDashed text (text.toList.drop 1))
    | [(_, flag)] => some (.option flag value)
    | _ => none

/-- The flags of the letters after a flag up to the first letter of none, and whether all letters
are taken; `none` if a flag is followed by a `=` or a dash. -/
def Flag.ofLetters? : List Char → Option (List Flag × Bool)
  | [] => some ([], true)
  | c :: rest =>
    if c = '=' ∨ c = '-' then none
    else
      match ofLetter? c with
      | none => some ([], false)
      | some flag => (ofLetters? rest).map fun (more, complete) => (flag :: more, complete)

/-- A word that begins with one dash, which is not all of it. -/
def Word.ofShort (text : String) (c : Char) (rest : List Char) : Word :=
  match Flag.ofLetter? c with
  | none => .ofDashed text (c :: rest)
  | some flag =>
    match Flag.ofLetters? rest with
    | some (more, complete) => .flags (flag :: more) complete
    | none => .broken

/-- What a word is on its own; `none` if it is short for several names. -/
def Word.ofText? (text : String) : Option Word :=
  match text.toList with
  | ['-', '-'] => some .separator
  | '-' :: '-' :: _ => ofLong? text
  | '-' :: c :: rest => some (.ofShort text c rest)
  | _ => some (.plain text)

/-- What every word is: after the separator all are plain. The result is `none` if one of them is
short for several names. -/
def Word.ofTexts? : List String → Option (List Word)
  | [] => some []
  | text :: texts => do
    match ← Word.ofText? text with
    | .separator => return .separator :: texts.map .plain
    | word => return word :: (← ofTexts? texts)

/-! ## Values -/

/-- The digit of ASCII with the value of a digit of any script. -/
def asciiDigit? (c : Char) : Option Char :=
  (Text.scriptDigit? c).map Nat.digitChar

/-- Digits with single underscores between them, as digits of ASCII without the underscores. -/
def digitsBetweenUnderscores? : List Char → Option (List Char)
  | [] => none
  | [c] => (asciiDigit? c).map ([·])
  | c :: '_' :: rest => do return (← asciiDigit? c) :: (← digitsBetweenUnderscores? rest)
  | c :: rest => do return (← asciiDigit? c) :: (← digitsBetweenUnderscores? rest)

/-- The number of a text: digits, perhaps after a sign and amid white space. -/
def integer? (text : String) : Option Int :=
  let isSpace (c : Char) : Bool := Text.isWhiteSpace c
  let cs := ((text.toList.dropWhile isSpace).reverse.dropWhile isSpace).reverse
  let (negative, cs) := match cs with
    | '-' :: cs => (true, cs)
    | '+' :: cs => (false, cs)
    | cs => (false, cs)
  (digitsBetweenUnderscores? cs).bind fun digits =>
    match Text.readDecimal (digits.map .scalar) with
    | .ok n => some (if negative then -n else n)
    | .error _ => none

/-! ## The command -/

/-- What has been gathered of a command. -/
structure Gathered where
  /-- The path of the input. -/
  input : Option String := none
  /-- Whether there is a word too many. -/
  surplus : Bool := false
  /-- The options so far, with a path that does not count. -/
  options : Options := { input := "" }
  deriving DecidableEq, Repr

namespace Gathered

/-- Sets a flag; `none` if it asks for an explanation. -/
def setFlag (g : Gathered) : Flag → Option Gathered
  | .verbose => some { g with options := { g.options with verbose := true } }
  | .appendTerminator => some { g with options := { g.options with appendTerminator := true } }
  | .help | .seed | .dump => none

/-- Sets an option to a value that it takes. -/
def setValue? (g : Gathered) (flag : Flag) (value : String) : Option Gathered :=
  match flag with
  | .seed => (integer? value).map fun n => { g with options := { g.options with seed := some n } }
  | .dump => (Dump.ofName? value).map fun d => { g with options := { g.options with dump := d } }
  | .help | .appendTerminator | .verbose => none

/-- The request of all words. -/
def request (g : Gathered) : Request :=
  match g.input with
  | some input => if g.surplus then .invalid else .run { g.options with input }
  | none => .invalid

/-- Takes the words of a command. -/
def takeWords (g : Gathered) : List Word → Request
  | [] => g.request
  | .plain text :: rest =>
    match g.input with
    | some _ => takeWords { g with surplus := true } rest
    | none =>
      match rest with
      | .separator :: rest => takeWords { g with input := some text } rest
      | rest => takeWords { g with input := some text } rest
  | .separator :: rest =>
    match g.input, rest with
    | none, .plain text :: rest => takeWords { g with input := some text } rest
    | _, rest => takeWords { g with surplus := true } rest
  | .unknown :: rest => takeWords { g with surplus := true } rest
  | .broken :: _ => .invalid
  | .flags fs complete :: rest =>
    match fs.foldlM setFlag g with
    | some g => takeWords { g with surplus := g.surplus || !complete } rest
    | none => .help
  | .option flag (some value) :: rest =>
    if flag.takesValue then
      match g.setValue? flag value with
      | some g => takeWords g rest
      | none => .invalid
    else .invalid
  | .option flag none :: rest =>
    if flag.takesValue then
      match rest with
      | .plain value :: rest =>
        match g.setValue? flag value with
        | some g => takeWords g rest
        | none => .invalid
      | _ => .invalid
    else
      match g.setFlag flag with
      | some g => takeWords g rest
      | none => .help

end Gathered

/-- What a command line asks for. -/
def Request.ofArguments (arguments : List String) : Request :=
  match Word.ofTexts? arguments with
  | some words => Gathered.takeWords {} words
  | none => .invalid

end ByteLayout.CommandLine
