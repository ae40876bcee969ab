import Saturation.Clause.Reading
import Saturation.Entry

/-!
# Listings

A listing is a text with one clause on each line.  Blank lines and lines that start with a hash
are passed over, a line `end` closes the listing, and each clause is labelled with the number of
its line.
-/

namespace Saturation.Listing

/-- A trimmed line that closes the listing. -/
def isEnd (line : Text) : Bool := line == "end"

/-- A trimmed line that holds no clause: a blank one or a remark. -/
def isSkipped (line : Text) : Bool := line.isEmpty || line.head? == some (.ofChar '#')

/-- The label of a clause that was read from the line of that number. -/
def label (number : Nat) : Text := "line " ++ toString number

def readFrom (number : Nat) : List Text → Except LiteralError (List Entry)
  | [] => .ok []
  | line :: rest =>
    let line := Text.strip line
    if isEnd line then .ok []
    else if isSkipped line then readFrom (number + 1) rest
    else match Clause.parse line with
      | .error e => .error (.onLine number e)
      | .ok c => (readFrom (number + 1) rest).map (⟨c, .labelled (label number)⟩ :: ·)

def read (lines : List Text) : Except LiteralError (List Entry) := readFrom 1 lines

end Saturation.Listing
