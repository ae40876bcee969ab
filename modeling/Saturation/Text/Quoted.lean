import Saturation.Text.Hex
import Saturation.Text.Printable

/-!
# Quoted text

How a message quotes a text: between single quotes, or between double quotes where that saves
escapes, with every code point that would not show written as an escape.  A quoted text holds no
surrogate, so it is a string.
-/

namespace Saturation.Text

/-- Double quotes are used for a text that holds a single quote and no double quote. -/
def quoteMark (t : Text) : Char :=
  if t.contains (.ofChar '\x27') && !t.contains (.ofChar '\x22') then '\x22' else '\x27'

/-- The escape of a code point by its number, in two, four or eight digits. -/
def numberEscape (n : Nat) : List Char :=
  if n < 0x100 then '\\' :: 'x' :: hexDigits 2 n
  else if n < 0x10000 then '\\' :: 'u' :: hexDigits 4 n
  else '\\' :: 'U' :: hexDigits 8 n

/-- One code point inside quotes: the mark and the backslash are escaped, line breaks and tabs
have letters, and what does not show is written by its number. -/
def quotedPoint (mark : Char) (p : CodePoint) : List Char :=
  match p.toChar? with
  | none => numberEscape p.value
  | some c =>
    if c = mark ∨ c = '\\' then ['\\', c]
    else if c = '\n' then ['\\', 'n']
    else if c = '\r' then ['\\', 'r']
    else if c = '\t' then ['\\', 't']
    else if isPrintable p then [c]
    else numberEscape p.value

def quoted (t : Text) : String :=
  let mark := quoteMark t
  .ofList (mark :: t.flatMap (quotedPoint mark) ++ [mark])

end Saturation.Text
