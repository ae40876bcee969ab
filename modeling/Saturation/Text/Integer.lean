import Saturation.Text.Blank
import Saturation.Text.Digit

/-!
# Integers in text

An integer is written with an optional sign and digits of any script.  Single underscores may
stand between digits and blanks around the whole.  There is a limit to the number of digits, for
reading and for writing.
-/

namespace Saturation.Text

/-- The blanks that may surround a number: all but the four record separators. -/
def isPadding (c : Char) : Bool := isBlank ↑c && !(0x1C ≤ c.toNat && c.toNat ≤ 0x1F)

def unpad (cs : List Char) : List Char :=
  ((cs.dropWhile isPadding).reverse.dropWhile isPadding).reverse

/-- The values of digits that may each have an underscore before them. -/
def digitRun? : List Char → Option (List Nat)
  | [] => some []
  | '_' :: c :: cs => (digitValue? c).bind fun d => (digitRun? cs).map (d :: ·)
  | c :: cs => (digitValue? c).bind fun d => (digitRun? cs).map (d :: ·)

/-- The longest number of digits that is read or written. -/
def maxDigits : Nat := 4300

/-- Whether the integer has few enough digits to be written. -/
def isWritable (n : Int) : Bool := n.natAbs < Nat.pow 10 maxDigits

/-- A number without a sign: digits, the first of them bare. -/
def natural? (cs : List Char) : Option Nat :=
  if cs.isEmpty || cs.head? == some '_' then none
  else (digitRun? cs).bind fun ds =>
    if ds.length ≤ maxDigits then some (ds.foldl (fun n d => 10 * n + d) 0) else none

def integer? (s : String) : Option Int :=
  match unpad s.toList with
  | '-' :: cs => (natural? cs).map fun n => -(n : Int)
  | '+' :: cs => (natural? cs).map Int.ofNat
  | cs => (natural? cs).map Int.ofNat

/-- A text of one digit or more and nothing else. -/
def isDigits (cs : List Char) : Bool := !cs.isEmpty && cs.all fun c => (digitValue? c).isSome

/-- A text that looks like a negative number: a minus sign and digits, perhaps with a point before
the last of them.  A line break at the end does not count. -/
def looksNegative (s : String) : Bool :=
  match s.toList with
  | '-' :: cs =>
    let cs := if cs.getLast? = some '\n' then cs.dropLast else cs
    let whole := cs.takeWhile fun c => (digitValue? c).isSome
    match cs.drop whole.length with
    | [] => isDigits whole
    | '.' :: decimals => isDigits decimals
    | _ => false
  | _ => false

end Saturation.Text
