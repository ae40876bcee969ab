import Saturation.Json.Reader
import Saturation.Literal.Reading

/-!
# Faults

Everything that can stop an operation short, with the words for it.  A document is read field by
field, and the first field that does not serve is the fault; `Json.field` and `Json.each` are the
two ways of reaching into it.
-/

namespace Saturation

inductive FileCause
  | missing
  | isDirectory
  | notDirectory
  | nameTooLong
  | nullInName
deriving DecidableEq

def FileCause.text : FileCause → String
  | missing => "[Errno 2] No such file or directory"
  | isDirectory => "[Errno 21] Is a directory"
  | notDirectory => "[Errno 20] Not a directory"
  | nameTooLong => "[Errno 36] File name too long"
  | nullInName => "embedded null byte"

/-- Why an operation stopped. -/
inductive Fault
  | literal (cause : LiteralError)
  | unreadable (cause : Json.ReadError)
  | missingField (key : String)
  /-- A value is of a kind that does not serve in its place. -/
  | wrongKind
  /-- A pair was needed and this many parts were there. -/
  | tooFew (given : Nat)
  /-- A pair was needed and more parts were there. -/
  | tooMany
  /-- The history of a search is no list, so nothing can be added to it. -/
  | noLog
  /-- The least clause of a set without clauses was asked for. -/
  | emptySet
  /-- No sample has this name; the others are the names to choose from. -/
  | unknownSample (name : Json) (known : List String)
  | longInteger
  | file (cause : FileCause) (name : String)

def Fault.message : Fault → String
  | literal cause => cause.message
  | unreadable cause => cause.message
  | missingField key => Text.quoted key
  | wrongKind => "a value of another kind is needed here"
  | tooFew given => "not enough values to unpack (expected 2, got " ++ toString given ++ ")"
  | tooMany => "too many values to unpack (expected 2)"
  | noLog => "the history is no list"
  | emptySet => "first() on an empty ClauseCollection"
  | unknownSample name known =>
    "Unknown problem: " ++ name.display ++ ". Choose from: [" ++
      ", ".intercalate (known.map fun (k : String) => Text.quoted k) ++ "]"
  | longInteger =>
    "Exceeds the limit (" ++ toString Text.maxDigits ++
      " digits) for integer string conversion; use sys.set_int_max_str_digits() to increase the limit"
  | file .nullInName _ => FileCause.nullInName.text
  | file cause name => cause.text ++ ": " ++ Text.quoted name

namespace Json

/-- The value of a field that must be there. -/
def field (key : String) : Json → Except Fault Json
  | object fields => match lookup key fields with
    | some v => .ok v
    | none => .error (.missingField key)
  | _ => .error .wrongKind

/-- The items of a value that must have some. -/
def each (v : Json) : Except Fault (List Json) :=
  match v.elements? with
  | some items => .ok items
  | none => .error .wrongKind

end Json

end Saturation
