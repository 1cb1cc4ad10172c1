/-! # Numbers of the double format

A decimal number that is read from a text is kept to 53 binary digits: it
becomes the nearest number `± mantissa · 2 ^ exponent` with a mantissa below
`2 ^ 53` and an exponent from -1074 to 971, of two equally near ones the one
with the even mantissa. A number too large for the format is infinite, and one
too small is zero; both keep their sign.

Each finite number has one representation: the exponent is as small as the
format and the 53 digits allow. So two of them are equal exactly when their
parts are, except that zero has two signs.
-/

namespace Refuter

/-- A number of the double format. -/
inductive Double where
  /-- The number `± mantissa · 2 ^ exponent`. -/
  | finite (negative : Bool) (mantissa : Nat) (exponent : Int)
  /-- A number beyond all finite ones. -/
  | infinite (negative : Bool)
  /-- The result of no computation. -/
  | nan
  deriving Repr, DecidableEq, Inhabited

namespace Double

/-- The number of binary digits of a mantissa. -/
def precision : Nat := 53

/-- The smallest exponent. -/
def leastExponent : Int := -1074

/-- The largest exponent. -/
def greatestExponent : Int := 971

/-- Zero with a sign. -/
def zero (negative : Bool) : Double :=
  .finite negative 0 leastExponent

/-! ### Rounding -/

/-- The whole number nearest to a quotient; of two the even one. -/
def roundQuotient (num den : Nat) : Nat :=
  let quotient := num / den
  let rest := num % den
  if den < 2 * rest ∨ (den = 2 * rest ∧ quotient % 2 = 1) then quotient + 1 else quotient

/-- The quotient `num / den · base ^ power` as a numerator and a denominator. -/
def scale (base : Nat) (power : Int) (num den : Nat) : Nat × Nat :=
  if 0 ≤ power then (num * Nat.pow base power.toNat, den)
  else (num, den * Nat.pow base power.natAbs)

/-- The exponent of a positive quotient: with it the mantissa fills the 53
    digits, unless that would take an exponent below the least one. -/
def exponentOf (num den : Nat) : Int :=
  let size : Int := (num.log2 : Int) - den.log2
  let (n, d) := scale 2 (-size) num den
  max leastExponent (if d ≤ n then size + 1 - precision else size - precision)

/-- The number of the format nearest to `± num / den`. -/
def ofQuotient (negative : Bool) (num den : Nat) : Double :=
  if num = 0 then zero negative
  else
    let exponent := exponentOf num den
    let (n, d) := scale 2 (-exponent) num den
    let mantissa := roundQuotient n d
    let (mantissa, exponent) :=
      if mantissa = Nat.pow 2 precision then (mantissa / 2, exponent + 1) else (mantissa, exponent)
    if greatestExponent < exponent then .infinite negative else .finite negative mantissa exponent

/-- The number of the format nearest to `± digits · 10 ^ power`. Powers far
    outside the format are told by the place of the first digit. -/
def ofDecimal (negative : Bool) (digits : Nat) (power : Int) : Double :=
  let place : Int := (Nat.toDigits 10 digits).length + power
  if digits = 0 ∨ place < -330 then zero negative
  else if 310 < place then .infinite negative
  else
    let (n, d) := scale 10 power digits 1
    ofQuotient negative n d

/-! ### Parts -/

/-- Is it zero, of either sign? -/
def isZero : Double → Bool
  | .finite _ 0 _ => true
  | _ => false

/-- A magnitude with its sign. -/
def signed (negative : Bool) (magnitude : Nat) : Int :=
  if negative then -(magnitude : Int) else magnitude

/-- A finite number as a numerator and a denominator. -/
def ratio? : Double → Option (Int × Nat)
  | .finite negative mantissa exponent =>
    let (n, d) := scale 2 exponent mantissa 1
    some (signed negative n, d)
  | _ => none

/-- The whole part of a finite number: what stands before the point. -/
def truncate? : Double → Option Int
  | .finite negative mantissa exponent =>
    let (n, d) := scale 2 exponent mantissa 1
    some (signed negative (n / d))
  | _ => none

/-- The whole number that a finite number is. -/
def whole? : Double → Option Int
  | .finite negative mantissa exponent =>
    let (n, d) := scale 2 exponent mantissa 1
    if n % d = 0 then some (signed negative (n / d)) else none
  | _ => none

end Double

end Refuter
