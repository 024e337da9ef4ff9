/-!
# UTF-8

Characters as bytes and back. `utf8Chars` writes every character in its shortest form; `decodeUtf8`
accepts exactly the well-formed sequences, without overlong forms and surrogates, and names the
first fault otherwise: where it starts, how many bytes it takes and what is wrong. A fault covers
the bytes that began a well-formed character, and at least one.
-/

namespace ByteLayout.Text

/-- The bytes of a run of characters. -/
def utf8Chars (text : List Char) : List UInt8 :=
  text.flatMap String.utf8EncodeChar

/-- What is wrong at a place that no character can be read from. -/
inductive Utf8Fault where
  /-- No character begins with this byte. -/
  | invalidStart
  /-- A byte that has to go on with a character does not. -/
  | invalidContinuation
  /-- The bytes end inside a character. -/
  | unexpectedEnd
  deriving DecidableEq, Repr

/-- A fault in a run of bytes. -/
structure Utf8Error where
  /-- The kind of fault. -/
  fault : Utf8Fault
  /-- The offset of the first byte of the fault. -/
  start : Nat
  /-- How many bytes the fault covers, at least one. -/
  size : Nat
  /-- The first byte of the fault. -/
  byte : UInt8
  deriving DecidableEq, Repr

/-- Whether a byte is inside a character. -/
def isContinuation (b : UInt8) : Bool :=
  0x80 ≤ b && b ≤ 0xBF

/-- The number of bytes of a character that begins with this byte, `0` if none does. -/
def sequenceLength (lead : UInt8) : Nat :=
  if lead < 0x80 then 1
  else if lead < 0xC2 then 0
  else if lead < 0xE0 then 2
  else if lead < 0xF0 then 3
  else if lead < 0xF5 then 4
  else 0

/-- Whether a byte may come second: some first bytes narrow the range of continuations, so that
overlong forms, surrogates and code points past the last one are left out. -/
def isSecond (lead b : UInt8) : Bool :=
  isContinuation b &&
    (if lead = 0xE0 then 0xA0 ≤ b
     else if lead = 0xED then b < 0xA0
     else if lead = 0xF0 then 0x90 ≤ b
     else if lead = 0xF4 then b < 0x90
     else true)

/-- The code point of a sequence: six bits of each continuation after the bits of the first. -/
def codePoint (lead : UInt8) (rest : List UInt8) : Nat :=
  let high := match rest.length with
    | 0 => lead.toNat
    | 1 => lead.toNat % 32
    | 2 => lead.toNat % 16
    | _ => lead.toNat % 8
  rest.foldl (fun n b => 64 * n + b.toNat % 64) high

/-- How many of the bytes after `lead` can belong to its character. -/
def goodContinuations (lead : UInt8) (rest : List UInt8) : Nat :=
  match rest with
  | [] => 0
  | b :: more =>
    if isSecond lead b then
      1 + ((more.take (sequenceLength lead - 2)).takeWhile isContinuation).length
    else 0

/-- Reads the bytes from offset `start` on, with the characters before them reversed in `read`. -/
def decodeUtf8From (start : Nat) (read : List Char) : List UInt8 → Except Utf8Error (List Char)
  | [] => .ok read.reverse
  | lead :: rest =>
    let need := sequenceLength lead
    if need = 0 then .error ⟨.invalidStart, start, 1, lead⟩
    else if need = 1 then decodeUtf8From (start + 1) (Char.ofNat lead.toNat :: read) rest
    else
      let good := goodContinuations lead rest
      if good + 1 = need then
        decodeUtf8From (start + need) (Char.ofNat (codePoint lead (rest.take good)) :: read)
          (rest.drop good)
      else if rest.length ≤ good then .error ⟨.unexpectedEnd, start, good + 1, lead⟩
      else .error ⟨.invalidContinuation, start, good + 1, lead⟩
termination_by bytes => bytes.length
decreasing_by
  · exact Nat.lt_succ_self _
  · simp only [List.length_drop, List.length_cons]
    omega

/-- The characters of a run of bytes, or its first fault. -/
def decodeUtf8 (bytes : List UInt8) : Except Utf8Error (List Char) :=
  decodeUtf8From 0 [] bytes

end ByteLayout.Text
