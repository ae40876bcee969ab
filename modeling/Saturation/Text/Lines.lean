import Saturation.Text.Basic

/-!
# Lines of text

A text is cut into lines after each line feed, which stays with its line.  A string that comes from
outside may end its lines in other ways; `unifyBreaks` brings them to the line feed first.
-/

namespace Saturation.Text

/-- A carriage return, alone or before a line feed, becomes a line feed. -/
def unifyBreaksChars : List Char → List Char
  | '\r' :: '\n' :: cs => '\n' :: unifyBreaksChars cs
  | '\r' :: cs => '\n' :: unifyBreaksChars cs
  | c :: cs => c :: unifyBreaksChars cs
  | [] => []

def unifyBreaks (s : String) : String := .ofList (unifyBreaksChars s.toList)

/-- Cuts after each line feed; the end of the text closes a last line that is not empty. -/
def lines : Text → List Text
  | [] => []
  | p :: t =>
    if p = '\n' then [p] :: lines t
    else match lines t with
      | [] => [[p]]
      | line :: rest => (p :: line) :: rest

/-- Cutting loses nothing. -/
theorem flatten_lines (t : Text) : (lines t).flatten = t := by
  fun_induction lines t <;> simp_all

end Saturation.Text
