/-
This module writes a binary floating-point number with the fewest digits that read back.

For one digit, two digits, and so on the two decimals of that length on either side of the number
are tried; the first length at which one of them rounds to it is the shortest, and of two hits the
nearer one is taken. Seventeen digits always suffice.
-/
import MacroAssembler.Number.Binary64
import MacroAssembler.Text.Integer

namespace MacroAssembler

namespace Binary64

/-- A nonnegative rational number. -/
structure Ratio where
  top : Nat
  bottom : Nat

namespace Ratio

def ofBinary (significand : Nat) (exponent : Int) : Ratio :=
  if 0 ≤ exponent then ⟨significand * Nat.pow 2 exponent.toNat, 1⟩
  else ⟨significand, Nat.pow 2 (-exponent).toNat⟩

def ofDecimal (digits : Nat) (power : Int) : Ratio :=
  if 0 ≤ power then ⟨digits * Nat.pow 10 power.toNat, 1⟩
  else ⟨digits, Nat.pow 10 (-power).toNat⟩

def below (left right : Ratio) : Bool := decide (left.top * right.bottom < right.top * left.bottom)

def distance (left right : Ratio) : Ratio :=
  ⟨(left.top * right.bottom - right.top * left.bottom) +
    (right.top * left.bottom - left.top * right.bottom), left.bottom * right.bottom⟩

def timesPower (value : Ratio) (power : Int) : Nat :=
  if 0 ≤ power then value.top / (value.bottom * Nat.pow 10 power.toNat)
  else value.top * Nat.pow 10 (-power).toNat / value.bottom

end Ratio

/-- The interval of reals that round to a positive number, and whether its ends belong to it. -/
structure Rounding where
  low : Ratio
  high : Ratio
  closed : Bool

/-- The interval of a positive number. Below a power of two the next number is half as far away. -/
def roundingOf (significand : Nat) (exponent : Int) : Rounding where
  low :=
    if significand = Nat.pow 2 52 ∧ leastExponent < exponent then
      .ofBinary (4 * significand - 1) (exponent - 2)
    else .ofBinary (2 * significand - 1) (exponent - 1)
  high := .ofBinary (2 * significand + 1) (exponent - 1)
  closed := significand % 2 = 0

def Rounding.holds (rounding : Rounding) (value : Ratio) : Bool :=
  (rounding.low.below value && value.below rounding.high) ||
    (rounding.closed && !value.below rounding.low && !rounding.high.below value)

/-- The decimal of the given last place that rounds to the number and lies nearest to it. -/
def candidate? (rounding : Rounding) (value : Ratio) (place : Int) : Option Nat :=
  let lower := value.timesPower place
  let upper := lower + 1
  let lowerHit := rounding.holds (.ofDecimal lower place)
  let upperHit := rounding.holds (.ofDecimal upper place)
  let lowerDistance := value.distance (.ofDecimal lower place)
  let upperDistance := value.distance (.ofDecimal upper place)
  if lowerHit && upperHit then
    if lowerDistance.below upperDistance then some lower
    else if upperDistance.below lowerDistance then some upper
    else some (lower + lower % 2)
  else if lowerHit then some lower
  else if upperHit then some upper
  else none

/-- The number of decimal digits before the point, found by counting down from a bound. -/
def decimalPoint (value : Ratio) : Nat → Int → Int
  | 0, bound => bound
  | steps + 1, bound =>
    if value.timesPower (bound - 1) = 0 then decimalPoint value steps (bound - 1) else bound

/-- The first length, counting up, at which a decimal rounds to the number. -/
def shortestFrom (rounding : Rounding) (value : Ratio) (point : Int) : Nat → Nat → Nat × Int
  | 0, length => (value.timesPower (point - length), point - length)
  | attempts + 1, length =>
    match candidate? rounding value (point - length) with
    | some digits => (digits, point - length)
    | none => shortestFrom rounding value point attempts (length + 1)

/-- The digits of a natural number with the zeros at its end removed, and how many those were. -/
def withoutTrailingZeros : Nat → Nat → Int → Nat × Int
  | 0, digits, place => (digits, place)
  | steps + 1, digits, place =>
    if digits % 10 = 0 then withoutTrailingZeros steps (digits / 10) (place + 1)
    else (digits, place)

/-- The shortest digits of a positive number and the place of the last of them. -/
def shortest (significand : Nat) (exponent : Int) : Nat × Int :=
  let value := Ratio.ofBinary significand exponent
  let rounding := roundingOf significand exponent
  let point := decimalPoint value 640 311
  let (digits, place) := shortestFrom rounding value point 17 1
  withoutTrailingZeros 18 digits place

def positional (digits : List Char) (point : Int) : List Char :=
  if point ≤ 0 then '0' :: '.' :: List.replicate (-point).toNat '0' ++ digits
  else if (digits.length : Int) ≤ point then
    digits ++ List.replicate (point.toNat - digits.length) '0' ++ ['.', '0']
  else digits.take point.toNat ++ '.' :: digits.drop point.toNat

/-- Digits with one of them before the point and an exponent of at least two digits. -/
def scientific (digits : List Char) (point : Int) : List Char :=
  let exponent := point - 1
  let fraction :=
    match digits with
    | first :: second :: rest => first :: '.' :: second :: rest
    | short => short
  let magnitude := Text.naturalDigits 10 exponent.natAbs
  fraction ++ 'e' :: (if exponent < 0 then '-' else '+') ::
    List.replicate (2 - magnitude.length) '0' ++ magnitude

def magnitudeText (significand : Nat) (exponent : Int) : List Char :=
  if significand = 0 then ['0', '.', '0']
  else
    let (digits, place) := shortest significand exponent
    let written := Text.naturalDigits 10 digits
    let point : Int := written.length + place
    if -4 < point ∧ point ≤ 16 then positional written point else scientific written point

def text : Binary64 → String
  | .finite negative significand exponent =>
    String.ofList ((if negative then ['-'] else []) ++ magnitudeText significand exponent)
  | .infinite negative => if negative then "-inf" else "inf"
  | .notANumber => "nan"

end Binary64

end MacroAssembler
