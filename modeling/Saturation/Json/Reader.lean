import Saturation.Json.Basic
import Saturation.Text.Hex
import Saturation.Text.Integer

/-!
# Reading JSON

A reader of JSON documents that says what it expected and where.  Every step takes the text that
is left and gives back what is left after it; a failure keeps the text at which it was noticed,
and its place in the document is counted from that.

The words for numbers that are not finite are read too, and of two fields of one name the last
one counts, in the place of the first.  There are limits to the digits of an integer and to the
depth of collections inside each other; what goes beyond them is refused as soon as it is met.
-/

namespace Saturation.Json

/-! ## Failures -/

inductive ReadCause
  | byteOrderMark
  | expectingValue
  | expectingName
  | expectingColon
  | expectingComma
  | unterminated
  | controlCharacter
  | unknownEscape
  | badUnit
  | extraData
deriving DecidableEq

def ReadCause.text : ReadCause → String
  | byteOrderMark => "Unexpected UTF-8 BOM (decode using utf-8-sig)"
  | expectingValue => "Expecting value"
  | expectingName => "Expecting property name enclosed in double quotes"
  | expectingColon => "Expecting ':' delimiter"
  | expectingComma => "Expecting ',' delimiter"
  | unterminated => "Unterminated string starting at"
  | controlCharacter => "Invalid control character at"
  | unknownEscape => "Invalid \\escape"
  | badUnit => "Invalid \\uXXXX escape"
  | extraData => "Extra data"

inductive Collection
  | array
  | object
deriving DecidableEq

/-- Why a text is no document. -/
inductive ReadError
  /-- A cause and the number of characters before it, with the line and the column of that place,
  both counted from one. -/
  | malformed (cause : ReadCause) (line column offset : Nat)
  | longInteger (digits : Nat)
  | tooDeep (kind : Collection)
deriving DecidableEq

def ReadError.message : ReadError → String
  | malformed cause line column offset =>
    s!"{cause.text}: line {line} column {column} (char {offset})"
  | longInteger digits =>
    "Exceeds the limit (" ++ toString Text.maxDigits ++
      " digits) for integer string conversion: value has " ++ toString digits ++
      " digits; use sys.set_int_max_str_digits() to increase the limit"
  | tooDeep .array =>
    "maximum recursion depth exceeded while decoding a JSON array from a unicode string"
  | tooDeep .object =>
    "maximum recursion depth exceeded while decoding a JSON object from a unicode string"

/-- A failure inside the reader: a cause and the text that was left when it was noticed, or a limit
that was passed. -/
inductive Stuck
  | at (cause : ReadCause) (rest : List Char)
  | longInteger (digits : Nat)
  | tooDeep (kind : Collection)

/-- Locates a failure in the whole text: the line breaks before it are counted, and the characters
since the last of them. -/
def Stuck.locate (document : List Char) : Stuck → ReadError
  | .at cause rest =>
    let offset := document.length - rest.length
    let before := document.take offset
    .malformed cause (before.count '\n' + 1)
      ((before.reverse.takeWhile (· != '\n')).length + 1) offset
  | .longInteger digits => .longInteger digits
  | .tooDeep kind => .tooDeep kind

abbrev Step (α : Type) := Except Stuck (α × List Char)

/-! ## Blanks and strings -/

def skipBlanks (cs : List Char) : List Char :=
  cs.dropWhile fun c => c = ' ' || c = '\t' || c = '\n' || c = '\r'

def unit? (a b c d : Char) : Option Nat := do
  let a ← Text.hexValue? a
  let b ← Text.hexValue? b
  let c ← Text.hexValue? c
  let d ← Text.hexValue? d
  return ((a * 16 + b) * 16 + c) * 16 + d

def isHighUnit (n : Nat) : Bool := 0xD800 ≤ n && n < 0xDC00

def isLowUnit (n : Nat) : Bool := 0xDC00 ≤ n && n < 0xE000

def letterEscape? : Char → Option Char
  | '\x22' => some '\x22'
  | '\\' => some '\\'
  | '/' => some '/'
  | 'b' => some '\x08'
  | 'f' => some '\x0c'
  | 'n' => some '\n'
  | 'r' => some '\r'
  | 't' => some '\t'
  | _ => none

/-- The units up to the closing quote: code points as they stand, and the numbers of the escapes.
`opened` is the text from the opening quote on and `done` what was read so far, last one first.
An escape of four digits must have something after it, the closing quote at least. -/
def stringUnits (opened : List Char) : (done : List Nat) → List Char → Step (List Nat)
  | _, [] => .error (.at .unterminated opened)
  | done, '\x22' :: rest => .ok (done.reverse, rest)
  | _, ['\\'] => .error (.at .unterminated opened)
  | done, '\\' :: 'u' :: a :: b :: c :: d :: rest =>
    match unit? a b c d with
    | some n =>
      if rest.isEmpty then .error (.at .badUnit ['u', a, b, c, d])
      else stringUnits opened (n :: done) rest
    | none => .error (.at .badUnit ('u' :: a :: b :: c :: d :: rest))
  | _, '\\' :: 'u' :: rest => .error (.at .badUnit ('u' :: rest))
  | done, '\\' :: c :: rest =>
    match letterEscape? c with
    | some e => stringUnits opened (e.toNat :: done) rest
    | none => .error (.at .unknownEscape ('\\' :: c :: rest))
  | done, c :: rest =>
    if c.toNat < 0x20 then .error (.at .controlCharacter (c :: rest))
    else stringUnits opened (c.toNat :: done) rest

/-- The code point of a pair of units. -/
def pairPoint (high low : Nat) : Nat := 0x10000 + (high - 0xD800) * 0x400 + (low - 0xDC00)

/-- The code points that units stand for: two halves of a pair in a row make one character. -/
def joinUnits : List Nat → List Nat
  | high :: low :: units =>
    if isHighUnit high && isLowUnit low then pairPoint high low :: joinUnits units
    else high :: joinUnits (low :: units)
  | units => units

/-- The text whose opening quote has been read. -/
def stringRest (rest : List Char) : Step Text :=
  match stringUnits ('\x22' :: rest) [] rest with
  | .ok (units, rest) => .ok ((joinUnits units).filterMap CodePoint.ofNat?, rest)
  | .error stuck => .error stuck

/-! ## Numbers and words -/

/-- The digits of the fraction, if a point and at least one digit follow. -/
def fraction : List Char → Option (List Char) × List Char
  | '.' :: c :: rest =>
    if c.isDigit then (some (c :: rest.takeWhile Char.isDigit), rest.dropWhile Char.isDigit)
    else (none, '.' :: c :: rest)
  | cs => (none, cs)

/-- The exponent, if its letter, perhaps a sign, and at least one digit follow. -/
def exponent (cs : List Char) : Option Int × List Char :=
  match cs with
  | mark :: after =>
    if mark = 'e' ∨ mark = 'E' then
      let (negative, digits) := match after with
        | '-' :: rest => (true, rest)
        | '+' :: rest => (false, rest)
        | rest => (false, rest)
      match digits.takeWhile Char.isDigit with
      | [] => (none, cs)
      | found =>
        let size : Int := Nat.ofDigitChars 10 found 0
        (some (if negative then -size else size), digits.dropWhile Char.isDigit)
    else (none, cs)
  | [] => (none, cs)

/-- The digits before the point: a zero alone, or digits that start with another. -/
def wholeDigits : List Char → List Char × List Char
  | '0' :: rest => (['0'], rest)
  | cs => (cs.takeWhile Char.isDigit, cs.dropWhile Char.isDigit)

/-- A number at the start of the text, if there is one. -/
def number? (cs : List Char) : Option (Step Json) :=
  let (negative, unsigned) := match cs with
    | '-' :: rest => (true, rest)
    | rest => (false, rest)
  match wholeDigits unsigned with
  | ([], _) => none
  | (whole, rest) =>
    let (decimals, rest) := fraction rest
    let (power, rest) := exponent rest
    match decimals, power with
    | none, none =>
      if whole.length ≤ Text.maxDigits then
        let size : Int := Nat.ofDigitChars 10 whole 0
        some (.ok (int (if negative then -size else size), rest))
      else some (.error (.longInteger whole.length))
    | _, _ =>
      let decimals := decimals.getD []
      let digits := Nat.ofDigitChars 10 (whole ++ decimals) 0
      some (.ok (real (.ofScaled negative digits (power.getD 0 - decimals.length)), rest))

def wordValues : List (String × Json) :=
  [("null", null), ("true", bool true), ("false", bool false), ("NaN", real .undefined),
   ("Infinity", real (.infinite false)), ("-Infinity", real (.infinite true))]

/-- A value without inner structure at the start of the text. -/
def scalar (cs : List Char) : Step Json :=
  match wordValues.findSome? fun (w, v) => (w.toList.isPrefixOf? cs).map (v, ·) with
  | some found => .ok found
  | none => match number? cs with
    | some step => step
    | none => .error (.at .expectingValue cs)

/-! ## Values -/

/-- How many collections may stand inside each other. -/
def maxDepth : Nat := 990

mutual

/-- A value at the start of the text; it may have `room` collections inside each other. -/
def value : (fuel room : Nat) → List Char → Step Json
  | 0, _, cs => .error (.at .expectingValue cs)
  | fuel + 1, room, cs => match cs, room with
    | '\x22' :: rest, _ => match stringRest rest with
      | .ok (t, rest) => .ok (string t, rest)
      | .error stuck => .error stuck
    | '[' :: _, 0 => .error (.tooDeep .array)
    | '[' :: rest, room + 1 => match skipBlanks rest with
      | ']' :: rest => .ok (array [], rest)
      | rest => items fuel room [] rest
    | '\x7b' :: _, 0 => .error (.tooDeep .object)
    | '\x7b' :: rest, room + 1 => match skipBlanks rest with
      | '\x7d' :: rest => .ok (object [], rest)
      | rest => members fuel room [] rest
    | cs, _ => scalar cs

/-- The items of an array up to its bracket; `done` holds those read so far, last one first. -/
def items : (fuel room : Nat) → (done : List Json) → List Char → Step Json
  | 0, _, _, cs => .error (.at .expectingValue cs)
  | fuel + 1, room, done, cs => match value fuel room cs with
    | .error stuck => .error stuck
    | .ok (v, rest) => match skipBlanks rest with
      | ']' :: rest => .ok (array (v :: done).reverse, rest)
      | ',' :: rest => items fuel room (v :: done) (skipBlanks rest)
      | rest => .error (.at .expectingComma rest)

/-- The fields of an object up to its brace; `done` holds those read so far. -/
def members : (fuel room : Nat) → (done : List (Text × Json)) → List Char → Step Json
  | 0, _, _, cs => .error (.at .expectingName cs)
  | fuel + 1, room, done, cs => match cs with
    | '\x22' :: rest => match stringRest rest with
      | .error stuck => .error stuck
      | .ok (key, rest) => match skipBlanks rest with
        | ':' :: rest => match value fuel room (skipBlanks rest) with
          | .error stuck => .error stuck
          | .ok (v, rest) => match skipBlanks rest with
            | '\x7d' :: rest => .ok (object (put key v done), rest)
            | ',' :: rest => members fuel room (put key v done) (skipBlanks rest)
            | rest => .error (.at .expectingComma rest)
        | rest => .error (.at .expectingColon rest)
    | cs => .error (.at .expectingName cs)

end

/-- A whole document: one value with nothing but blanks around it.  Two calls of the reader start
at each character at most, which is what the fuel allows. -/
def document (cs : List Char) : Except Stuck Json :=
  if cs.head? = some '\uFEFF' then .error (.at .byteOrderMark cs)
  else match value (2 * cs.length + 2) maxDepth (skipBlanks cs) with
    | .error stuck => .error stuck
    | .ok (v, rest) => match skipBlanks rest with
      | [] => .ok v
      | rest => .error (.at .extraData rest)

def read (text : String) : Except ReadError Json :=
  (document text.toList).mapError (Stuck.locate text.toList)

end Saturation.Json
