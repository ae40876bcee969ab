import Saturation.Clause
import Saturation.Literal.Reading

/-!
# Reading a clause

A line of words is the clause of the literals they name.  The brackets of the empty clause, alone
on the line, stand for it; a line without words does too.
-/

namespace Saturation.Clause

/-- The clause that a list of words names; the first word that is no literal is the fault. -/
def ofWords (words : List Text) : Except LiteralError Clause :=
  match words.mapM Literal.parse with
  | .ok ls => .ok (ofLiterals ls)
  | .error e => .error e

def parse (line : Text) : Except LiteralError Clause :=
  let text := Text.strip line
  if text = "[]" then .ok ∅ else ofWords (Text.words text)

end Saturation.Clause
