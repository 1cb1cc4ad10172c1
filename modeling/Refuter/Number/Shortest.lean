import Refuter.Number.Double

/-! # The text of a number

A finite number is written with the fewest decimal digits that read back as
it; of several such texts the nearest one is taken, and of two equally near
ones the one with the even last digit.

**Search.** For one digit, two digits and so on, only the two neighbours of the
number among the decimals of that length have to be tried: if any decimal of
that length reads back, one of them does. Seventeen digits always suffice.
-/

namespace Refuter

/-- The digits of a natural number. -/
def natText (n : Nat) : List Char :=
  Nat.toDigits 10 n

namespace Double

/-- The place of the first digit of a positive quotient: the least power of ten
    above it. -/
def decimalPlace (num den : Nat) : Int :=
  let size : Int := (natText num).length - (natText den).length
  let (n, d) := scale 10 (-size) num den
  if n < d then size else size + 1

/-- The nearer of two neighbours `low` and `low + 1` of the quotient
    `num / den`, of those that read back as the number. -/
def nearest? (reads : Nat → Bool) (num den : Nat) : Option Nat :=
  let low := num / den
  match reads low, reads (low + 1) with
  | true, true => some (roundQuotient num den)
  | true, false => some low
  | false, true => some (low + 1)
  | false, false => none

/-- The digits and the power of ten of the shortest text of `mantissa · 2 ^ exponent`. -/
def shortest (mantissa : Nat) (exponent : Int) : Nat × Int :=
  let (num, den) := scale 2 exponent mantissa 1
  let place := decimalPlace num den
  let attempt := fun (length : Nat) =>
    let power := place - length
    let (n, d) := scale 10 (-power) num den
    let reads := fun digits => ofDecimal false digits power = .finite false mantissa exponent
    (nearest? reads n d).map fun digits => (digits, power)
  ((List.range 17).findSome? fun i => attempt (i + 1)).getD (mantissa, 0)

/-- Drops the zeros at the end of some digits, counting them into the power. -/
def dropZeros : Nat → Nat → Int → Nat × Int
  | 0, digits, power => (digits, power)
  | fuel + 1, digits, power =>
    if digits ≠ 0 ∧ digits % 10 = 0 then dropZeros fuel (digits / 10) (power + 1)
    else (digits, power)

/-- The number `digits · 10 ^ power` with a point: positional between `10⁻⁴` and
    `10¹⁶`, with an exponent of at least two digits outside. -/
def decimalText (digits : Nat) (power : Int) : List Char :=
  let (digits, power) := dropZeros (natText digits).length digits power
  let figures := natText digits
  let place : Int := figures.length + power
  if digits = 0 then "0.0".toList
  else if -4 < place ∧ place ≤ 16 then
    if place ≤ 0 then "0.".toList ++ List.replicate place.natAbs '0' ++ figures
    else if 0 ≤ power then figures ++ List.replicate power.toNat '0' ++ ".0".toList
    else figures.take place.toNat ++ '.' :: figures.drop place.toNat
  else
    let exponent := place - 1
    let exponentFigures := natText exponent.natAbs
    let fraction := figures.drop 1
    figures.take 1 ++ (if fraction.isEmpty then [] else '.' :: fraction)
      ++ ['e', if exponent < 0 then '-' else '+']
      ++ List.replicate (2 - exponentFigures.length) '0' ++ exponentFigures

/-- The words for the numbers that have no digits. -/
structure Words where
  /-- The word for an infinite number, without its sign. -/
  infinite : String
  /-- The word for the result of no computation. -/
  nan : String

/-- The text of a number. -/
def text (words : Words) : Double → List Char
  | .finite negative 0 _ => (if negative then ['-'] else []) ++ "0.0".toList
  | .finite negative mantissa exponent =>
    let (digits, power) := shortest mantissa exponent
    (if negative then ['-'] else []) ++ decimalText digits power
  | .infinite negative => (if negative then ['-'] else []) ++ words.infinite.toList
  | .nan => words.nan.toList

end Double

end Refuter
