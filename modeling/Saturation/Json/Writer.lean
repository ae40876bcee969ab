import Saturation.Json.Basic
import Saturation.Number.Shortest
import Saturation.Text.Hex
import Saturation.Text.Integer

/-!
# Writing JSON

Documents are written in ASCII.  `compact` uses no blanks at all; `indented` puts every item and
every field on a line of its own, two blanks deeper than the bracket that opens it, and leaves
empty collections closed.  There is no line break at the end.

A document is written token by token, up to the first integer that has too many digits to be
written; `isWritable` says that there is none.
-/

namespace Saturation.Json

/-! ## Strings -/

/-- A sixteen-bit unit as an escape. -/
def escapedUnit (n : Nat) : List Char := '\\' :: 'u' :: Text.hexDigits 4 n

/-- A code point as an escape: as one unit, or above U+FFFF as a pair of surrogates. -/
def escapedNumber (n : Nat) : List Char :=
  if n < 0x10000 then escapedUnit n
  else
    let n := n - 0x10000
    escapedUnit (0xD800 + n / 0x400) ++ escapedUnit (0xDC00 + n % 0x400)

/-- One code point inside a JSON string.  What is not printable ASCII is escaped. -/
def escapedPoint (p : CodePoint) : List Char :=
  match p.toChar? with
  | none => escapedNumber p.value
  | some c =>
    if c = '\x22' ∨ c = '\\' then ['\\', c]
    else if c = '\n' then ['\\', 'n']
    else if c = '\r' then ['\\', 'r']
    else if c = '\t' then ['\\', 't']
    else if c = '\x0c' then ['\\', 'f']
    else if c = '\x08' then ['\\', 'b']
    else if 0x20 ≤ p.value ∧ p.value ≤ 0x7E then [c]
    else escapedNumber p.value

/-- A JSON string with its quotes. -/
def stringChars (t : Text) : List Char := '\x22' :: t.flatMap escapedPoint ++ ['\x22']

/-! ## Tokens

The layout is a depth: `none` writes everything on one line, `some n` stands `n` levels deep.
-/

/-- A piece of a document: an integer, or characters that can be written anyway. -/
inductive Token
  | chars (cs : List Char)
  | int (n : Int)

namespace Token

def text : Token → List Char
  | chars cs => cs
  | int n => (toString n).toList

def isWritable : Token → Bool
  | chars _ => true
  | int n => Text.isWritable n

end Token

/-- A line break and the blanks up to the depth; nothing in a compact document. -/
def lineBreak : Option Nat → List Char
  | none => []
  | some depth => '\n' :: List.replicate (2 * depth) ' '

def deeper (layout : Option Nat) : Option Nat := layout.map (· + 1)

def colon (layout : Option Nat) : List Char := if layout.isSome then [':', ' '] else [':']

/-- Brackets around parts. -/
def enclosed (layout : Option Nat) (opening closing : Char) : List (List Token) → List Token
  | [] => [.chars [opening, closing]]
  | parts =>
    .chars (opening :: lineBreak (deeper layout)) ::
      [Token.chars (',' :: lineBreak (deeper layout))].intercalate parts ++
      [.chars (lineBreak layout ++ [closing])]

mutual

def tokens (layout : Option Nat) : Json → List Token
  | null => [.chars ['n', 'u', 'l', 'l']]
  | bool b => [.chars (if b then ['t', 'r', 'u', 'e'] else ['f', 'a', 'l', 's', 'e'])]
  | int n => [.int n]
  | real x => [.chars (x.textWith "Infinity" "NaN").toList]
  | string t => [.chars (stringChars t)]
  | array items => enclosed layout '[' ']' (itemTokens (deeper layout) items)
  | object fields => enclosed layout '\x7b' '\x7d' (fieldsTokens (deeper layout) fields)
termination_by structural v => v

def itemTokens (layout : Option Nat) : List Json → List (List Token)
  | [] => []
  | v :: items => tokens layout v :: itemTokens layout items
termination_by structural items => items

/-- A field: its name, a colon, its value. -/
def fieldTokens (layout : Option Nat) : Text × Json → List Token
  | (key, v) => .chars (stringChars key ++ colon layout) :: tokens layout v
termination_by structural field => field

def fieldsTokens (layout : Option Nat) : List (Text × Json) → List (List Token)
  | [] => []
  | field :: fields => fieldTokens layout field :: fieldsTokens layout fields
termination_by structural fields => fields

end

/-! ## Documents -/

/-- The text of tokens up to the first that cannot be written. -/
def written (ts : List Token) : String :=
  .ofList ((ts.takeWhile Token.isWritable).flatMap Token.text)

/-- The document on one line, without blanks. -/
def compact (v : Json) : String := written (tokens none v)

/-- The document with every item on a line of its own. -/
def indented (v : Json) : String := written (tokens (some 0) v)

/-- Whether the whole document can be written. -/
def isWritable (v : Json) : Bool := (tokens none v).all Token.isWritable

end Saturation.Json
