import ByteLayout.Text.Line
import ByteLayout.Text.Numeral
import ByteLayout.Text.Quoted
import ByteLayout.Text.Utf8

/-!
# Inputs

The input of a run: its path, the content that a directory has for a path, and the text of the
content, or why there is none. A content is UTF-8, and its line ends are made line feeds before
anything else.
-/

namespace ByteLayout.CommandLine

/-- Why an input has no text. -/
inductive ReadError where
  /-- The system refuses to read it, for a numbered reason. -/
  | refused (number : Nat) (reason path : String)
  /-- It is no UTF-8. -/
  | undecodable (e : Text.Utf8Error)
  deriving DecidableEq, Repr

namespace ReadError

/-- No file has the path. -/
def notFound (path : String) : ReadError :=
  refused 2 "No such file or directory" path

/-- The path is that of a directory. -/
def isDirectory (path : String) : ReadError :=
  refused 21 "Is a directory" path

/-- A part of the path is a file. -/
def notDirectory (path : String) : ReadError :=
  refused 20 "Not a directory" path

/-- The path or a name in it is too long. -/
def nameTooLong (path : String) : ReadError :=
  refused 36 "File name too long" path

/-- How a message calls a fault in UTF-8. -/
def faultText : Text.Utf8Fault → Text
  | .invalidStart => "invalid start byte"
  | .invalidContinuation => "invalid continuation byte"
  | .unexpectedEnd => "unexpected end of data"

/-- The text of the error. -/
def message : ReadError → Text
  | refused number reason path =>
    "[Errno " ++ Text.decimal number ++ "] " ++ reason ++ ": " ++ Text.quote path
  | undecodable e =>
    let place : Text :=
      if e.size = 1 then
        "byte 0x" ++ Text.ofList (Text.hexByte e.byte) ++ " in position " ++ Text.decimal e.start
      else
        "bytes in position " ++ Text.decimal e.start ++ "-" ++ Text.decimal (e.start + e.size - 1)
    "'utf-8' codec can't decode " ++ place ++ ": " ++ faultText e.fault

end ReadError

/-- A path without the parts that name no step: empty ones and single dots. -/
def normalisePath (path : String) : String :=
  let steps := (path.toList.splitOnP (· == '/')).filter fun step => step != [] && step != ['.']
  let root := match path.toList with
    | '/' :: '/' :: '/' :: _ => "/"
    | '/' :: '/' :: _ => "//"
    | '/' :: _ => "/"
    | _ => ""
  let whole := root ++ "/".intercalate (steps.map String.ofList)
  if whole = "" then "." else whole

/-- Whether a part of a path leads to a directory in any case. -/
def isDirectoryStep (step : String) : Bool :=
  step = "" || step = "." || step = ".."

/-- The most bytes that a name has. -/
def nameLimit : Nat := 255

/-- The most bytes that a path has. -/
def pathLimit : Nat := 4095

/-- The content of a path that starts in a directory of files. All other directories are empty. -/
def contentIn (files : List (String × List UInt8)) (path : String) :
    Except ReadError (List UInt8) :=
  if pathLimit < path.utf8ByteSize then .error (.nameTooLong path)
  else
    let steps := (path.toList.splitOnP (· == '/')).map String.ofList
    match steps.head?.bind (List.lookup · files) with
    | some content => if steps.length = 1 then .ok content else .error (.notDirectory path)
    | none =>
      match steps.find? fun step => !isDirectoryStep step with
      | none => .error (.isDirectory path)
      | some step =>
        .error (if nameLimit < step.utf8ByteSize then .nameTooLong path else .notFound path)

/-- The text of an input. -/
def inputText (bytes : List UInt8) : Except ReadError Text :=
  match Text.decodeUtf8 bytes with
  | .ok cs => .ok (Text.ofList (Text.normaliseNewlines (cs.map .scalar)))
  | .error e => .error (.undecodable e)

end ByteLayout.CommandLine
