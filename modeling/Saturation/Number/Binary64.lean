/-!
# Binary floating-point numbers

Numbers of the format binary64: a sign, and a mantissa below `2 ^ 53` in units of a power of two
between `2 ^ -1074` and `2 ^ 971`.  A document's fractions are such numbers.  All arithmetic is on
integers: a number is the exact ratio that it should be, rounded once, to the nearest number of the
format and from the middle between two to the one with the even mantissa.
-/

namespace Saturation

inductive Binary64
  /-- `mantissa` times two to the power `exponent`, with a sign that zero has too. -/
  | finite (negative : Bool) (mantissa : Nat) (exponent : Int)
  | infinite (negative : Bool)
  | undefined
deriving DecidableEq, Inhabited

namespace Binary64

/-! ## Rounding -/

/-- The integer nearest to a ratio; of two the even one. -/
def nearest (num den : Nat) : Nat :=
  let q := num / den
  let r := num % den
  if 2 * r < den then q else if den < 2 * r then q + 1 else q + q % 2

/-- A ratio counted in units of a power of two. -/
def inUnits (num den : Nat) (exponent : Int) : Nat × Nat :=
  (num <<< (-exponent).toNat, den <<< exponent.toNat)

def minExponent : Int := -1074

def maxExponent : Int := 971

def zero (negative : Bool) : Binary64 := finite negative 0 minExponent

/-- The exponent at which a ratio has 53 binary digits before the point, if it is in range.  The
sizes of the two parts fix it up to one. -/
def exponentFor (num den : Nat) : Int :=
  let guess := max ((num.log2 : Int) - den.log2 - 52) minExponent
  let (n, d) := inUnits num den guess
  if n < d <<< 52 then max (guess - 1) minExponent else guess

/-- A mantissa of up to `2 ^ 53` as a number. -/
def ofMantissa (negative : Bool) (mantissa : Nat) (exponent : Int) : Binary64 :=
  let (mantissa, exponent) :=
    if mantissa = 1 <<< 53 then (1 <<< 52, exponent + 1) else (mantissa, exponent)
  if exponent ≤ maxExponent then finite negative mantissa exponent else infinite negative

/-- The number nearest to a ratio. -/
def ofRatio (negative : Bool) (num den : Nat) : Binary64 :=
  if num = 0 then zero negative
  else
    let exponent := exponentFor num den
    let (n, d) := inUnits num den exponent
    ofMantissa negative (nearest n d) exponent

/-- The number nearest to `digits` times ten to the power `exponent`.  A number of 310 places
before the point is too large for the format, and one with 330 zeros after it too small. -/
def ofScaled (negative : Bool) (digits : Nat) (exponent : Int) : Binary64 :=
  let places := (Nat.toDigits 10 digits).length + exponent
  if digits = 0 then zero negative
  else if 310 ≤ places then infinite negative
  else if places ≤ -330 then zero negative
  else ofRatio negative (digits * Nat.pow 10 exponent.toNat) (Nat.pow 10 (-exponent).toNat)

/-! ## Use -/

/-- Only zero counts as false. -/
def isTruthy : Binary64 → Bool
  | finite _ mantissa _ => mantissa != 0
  | _ => true

/-- A finite number as a ratio, with its sign in the first part. -/
def ratio (negative : Bool) (mantissa : Nat) (exponent : Int) : Int × Nat :=
  let size : Int := ↑(mantissa <<< exponent.toNat)
  (if negative then -size else size, 1 <<< (-exponent).toNat)

/-- The number nearest to one more. -/
def succ : Binary64 → Binary64
  | finite negative mantissa exponent =>
    let (num, den) := ratio negative mantissa exponent
    ofRatio (num + den < 0) (num + den).natAbs den
  | x => x

/-- Whether the number is not less than an integer. -/
def atLeast (n : Int) : Binary64 → Bool
  | finite negative mantissa exponent =>
    let (num, den) := ratio negative mantissa exponent
    n * den ≤ num
  | infinite negative => !negative
  | undefined => false

end Binary64

end Saturation
