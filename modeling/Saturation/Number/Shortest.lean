import Saturation.Number.Binary64

/-!
# Shortest decimals

A number is written with the fewest decimal digits that read back as the same number, and of those
with the nearest ones.  The reals that read back lie between the middles of the gaps to the two
neighbours; the middles belong to them if the mantissa is even.  A grid of decimals has such a real
if one of the two points next to the number itself is one.
-/

namespace Saturation.Binary64

/-! ## Digits -/

/-- A finite number that is not zero, in units of ten to the power `grid`: the number is `num / den`
and the unit of its mantissa `unit / den`. -/
structure Scaled where
  num : Nat
  unit : Nat
  den : Nat

/-- `mantissa * 2 ^ exponent` in units of `10 ^ grid`. -/
def scaled (mantissa : Nat) (exponent grid : Int) : Scaled :=
  let unit := Nat.pow 10 (-grid).toNat <<< exponent.toNat
  { num := mantissa * unit, unit, den := Nat.pow 10 grid.toNat <<< (-exponent).toNat }

/-- Whether the gap below the number is half the gap above it. -/
def isNarrow (mantissa : Nat) (exponent : Int) : Bool :=
  mantissa == 1 <<< 52 && minExponent < exponent

/-- Whether a grid point reads back as the number. -/
def readsBack (mantissa : Nat) (exponent : Int) (s : Scaled) (point : Nat) : Bool :=
  let least := 4 * s.num - (if isNarrow mantissa exponent then s.unit else 2 * s.unit)
  let most := 4 * s.num + 2 * s.unit
  let given := 4 * (point * s.den)
  if mantissa % 2 = 0 then least ≤ given && given ≤ most else least < given && given < most

/-- The grid point that reads back, of two the nearer one, and from the middle the even one. -/
def pointOn? (mantissa : Nat) (exponent grid : Int) : Option Nat :=
  let s := scaled mantissa exponent grid
  let below := s.num / s.den
  match readsBack mantissa exponent s below, readsBack mantissa exponent s (below + 1) with
  | true, true => some (nearest s.num s.den)
  | true, false => some below
  | false, true => some (below + 1)
  | false, false => none

/-- Whether the number is below ten to the power `places`. -/
def isBelow (mantissa : Nat) (exponent places : Int) : Bool :=
  let s := scaled mantissa exponent places
  s.num < s.den

/-- The places before the point, counted negative from the point on.  The binary size gives them
up to two. -/
def places (mantissa : Nat) (exponent : Int) : Int :=
  let guess := Int.fdiv ((mantissa.log2 + exponent) * 30103) 100000
  if isBelow mantissa exponent guess then guess
  else if isBelow mantissa exponent (guess + 1) then guess + 1
  else guess + 2

/-- Moves final zeros from the digits into the exponent; `fuel` bounds how many. -/
def shed : (fuel : Nat) → Nat → Int → Nat × Int
  | 0, digits, exponent => (digits, exponent)
  | fuel + 1, digits, exponent =>
    if digits % 10 = 0 then shed fuel (digits / 10) (exponent + 1) else (digits, exponent)

/-- The digits of a number that is not zero, and the power of ten that they count.  The exact
decimal stands in if no grid of up to seventeen places serves. -/
def shortest (mantissa : Nat) (exponent : Int) : Nat × Int :=
  let top := places mantissa exponent
  let found := (List.range 17).findSome? fun (n : Nat) =>
    let grid := top - (n + 1)
    (pointOn? mantissa exponent grid).map (·, grid)
  match found with
  | some (digits, grid) => shed (Nat.toDigits 10 digits).length digits grid
  | none =>
    ((mantissa <<< exponent.toNat) * Nat.pow 5 (-exponent).toNat, -((-exponent).toNat : Int))

/-! ## Text

Positional while the point is not too far from the digits, with an exponent of at least two places
otherwise.
-/

/-- The digits around a point that stands after `point` of them. -/
def positional (digits : List Char) (point : Int) : List Char :=
  if point ≤ 0 then
    '0' :: '.' :: List.replicate (-point).toNat '0' ++ digits
  else if digits.length ≤ point.toNat then
    digits ++ List.replicate (point.toNat - digits.length) '0' ++ ['.', '0']
  else digits.take point.toNat ++ '.' :: digits.drop point.toNat

/-- One digit, the others after a point, and the exponent with its sign. -/
def scientific (digits : List Char) (exponent : Int) : List Char :=
  let fraction := match digits.tail with
    | [] => []
    | rest => '.' :: rest
  let size := Nat.toDigits 10 exponent.natAbs
  digits.take 1 ++ fraction ++ ['e', if exponent < 0 then '-' else '+'] ++
    List.replicate (2 - size.length) '0' ++ size

def magnitude (mantissa : Nat) (exponent : Int) : List Char :=
  if mantissa = 0 then ['0', '.', '0']
  else
    let (digits, grid) := shortest mantissa exponent
    let written := Nat.toDigits 10 digits
    let point := written.length + grid
    if -4 < point ∧ point ≤ 16 then positional written point else scientific written (point - 1)

/-- The text of the number, with the given words for what is not finite. -/
def textWith (infinity undefinedWord : String) : Binary64 → String
  | finite negative mantissa exponent =>
    .ofList ((if negative then ['-'] else []) ++ magnitude mantissa exponent)
  | infinite negative => (if negative then "-" else "") ++ infinity
  | undefined => undefinedWord

end Saturation.Binary64
