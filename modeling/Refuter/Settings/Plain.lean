import Refuter.Error
import Refuter.Json.Lexer
import Refuter.Text.Blank

/-! # Plain texts in settings

A text without quotes is read as what it looks like:

* **nothing**: the words for the absent value;
* **a truth value**: the words for yes and no;
* **a whole number**: decimal, binary (`0b`), octal (a leading zero),
  hexadecimal (`0x`), or in parts of sixty (`1:30` is ninety);
* **a decimal number**: with a point, and with a sign in its exponent; or in
  parts of sixty; or without digits (`.inf`, `.nan`);
* **a text** otherwise.

Underscores in numbers do not count. What looks like a date, a merge key or the mark of
a default is refused as a notation that is not read.
-/

namespace Refuter.Settings.Plain

/-! ### Words -/

/-- The words for the absent value. -/
def nullWords : List String := ["", "~", "null", "Null", "NULL"]

/-- The words for yes. -/
def trueWords : List String :=
  ["true", "True", "TRUE", "yes", "Yes", "YES", "on", "On", "ON"]

/-- The words for no. -/
def falseWords : List String :=
  ["false", "False", "FALSE", "no", "No", "NO", "off", "Off", "OFF"]

/-- The words for an infinite number. -/
def infiniteWords : List String := [".inf", ".Inf", ".INF"]

/-- The words for the number that is none. -/
def nanWords : List String := [".nan", ".NaN", ".NAN"]

/-! ### Whole numbers -/

/-- May a character stand in a number? -/
def isFigure (c : Char) : Bool :=
  c.isDigit || c = '_'

/-- A text without underscores. -/
def dense (text : List Char) : List Char :=
  text.filter (· ≠ '_')

/-- The number that digits of a base write. -/
def digitsOf? (base : Nat) (digits : List Char) : Option Nat :=
  digits.foldlM (fun n c => do
    let d ← Json.hexValue? c
    if d < base then some (n * base + d) else none) 0

/-- The number that a text in a base writes, if it writes one. Underscores alone
    look like a number and are none. -/
def ofBase? (base : Nat) (text : List Char) : Option (Except Error Nat) :=
  if text.isEmpty then none
  else if (dense text).isEmpty then some (.error (.noDigits base))
  else (digitsOf? base (dense text)).map .ok

/-- Is it a decimal number that starts with no zero? -/
def isCounting : List Char → Bool
  | [] => false
  | c :: rest => c.isDigit && c ≠ '0' && rest.all isFigure

/-- A part of sixty: one or two digits, below sixty. -/
def sixtieth? (text : List Char) : Option Nat :=
  let n := Json.ofDigits text
  if (text.length = 1 ∨ text.length = 2) ∧ text.all Char.isDigit ∧ n < 60 then some n else none

/-- Adds parts of sixty to a number. -/
def addSixtieths (n : Nat) (parts : List (List Char)) : Option Nat :=
  parts.foldlM (fun n part => (sixtieth? part).map (n * 60 + ·)) n

/-- The number that decimal digits write, unless they are too many. -/
def decimalNatural (text : List Char) : Except Error Nat :=
  let digits := dense text
  if Scalar.maxDigits < digits.length then .error (.oversized digits.length)
  else .ok (Json.ofDigits digits)

/-- The natural number that a plain text writes, if it writes one. -/
def natural? (text : List Char) : Option (Except Error Nat) :=
  match text with
  | ['0'] => some (.ok 0)
  | '0' :: 'b' :: rest => ofBase? 2 rest
  | '0' :: 'x' :: rest => ofBase? 16 rest
  | '0' :: rest => ofBase? 8 ('0' :: rest)
  | _ =>
    if isCounting text then some (decimalNatural text)
    else match Text.splitAt ':' text with
      | first :: part :: parts =>
        if isCounting first then
          (addSixtieths 0 (part :: parts)).map fun below => do
            let n ← decimalNatural first
            return n * Nat.pow 60 (parts.length + 1) + below
        else none
      | _ => none

/-- A sign in front of a text, and whether it is a minus. -/
def takeSign : List Char → Option Bool × List Char
  | '-' :: rest => (some true, rest)
  | '+' :: rest => (some false, rest)
  | rest => (none, rest)

/-- The whole number that a plain text writes, if it writes one. -/
def whole? (text : List Char) : Option (Except Error Int) :=
  let (sign, rest) := takeSign text
  (natural? rest).map fun n => n.map (Double.signed (sign = some true))

/-! ### Decimal numbers -/

/-- The exponent at the end of a decimal number: absent, or a letter, a sign and
    digits. -/
def exponent? : List Char → Option Int
  | [] => some 0
  | e :: sign :: digits =>
    if (e = 'e' ∨ e = 'E') ∧ (sign = '-' ∨ sign = '+') ∧ !digits.isEmpty ∧ digits.all Char.isDigit
    then some (Double.signed (sign = '-') (Json.ofDigits digits))
    else none
  | _ => none

/-- The number whose parts stand around a point. -/
def ofPoint (negative : Bool) (whole : Nat) (fraction : List Char) (exponent : Int) : Double :=
  let figures := dense fraction
  Double.ofDecimal negative (whole * Nat.pow 10 figures.length + Json.ofDigits figures)
    (exponent - figures.length)

/-- The decimal number that a plain text writes, if it writes one. -/
def decimal? (text : List Char) : Option Double :=
  let (sign, rest) := takeSign text
  let negative := sign = some true
  let word := String.ofList rest
  if word ∈ infiniteWords then some (.infinite negative)
  else if sign.isNone && word ∈ nanWords then some .nan
  else match rest.dropWhile (· ≠ '.') with
    | [] => none
    | _ :: behind =>
      let whole := rest.takeWhile (· ≠ '.')
      let fraction := behind.takeWhile isFigure
      let tail := behind.dropWhile isFigure
      match whole with
      | [] =>
        if sign.isNone && (fraction.head?.map Char.isDigit).getD false then
          (exponent? tail).map (ofPoint false 0 fraction)
        else none
      | c :: figures =>
        if c.isDigit && figures.all isFigure then
          (exponent? tail).map (ofPoint negative (Json.ofDigits (dense whole)) fraction)
        else match Text.splitAt ':' whole with
          | first :: part :: parts =>
            if c.isDigit && first.all isFigure && tail.isEmpty then
              (addSixtieths (Json.ofDigits (dense first)) (part :: parts)).map fun n =>
                ofPoint negative n fraction 0
            else none
          | _ => none

/-- Does a text look like something that is not read? -/
def isBeyond : List Char → Bool
  | ['<', '<'] | ['='] => true
  | a :: b :: c :: d :: '-' :: e :: _ => [a, b, c, d, e].all Char.isDigit
  | _ => false

/-- The value of a plain text. -/
def value (text : List Char) : Except Error Json :=
  let s := String.ofList text
  if isBeyond text then .error .unsupported
  else if s ∈ nullWords then .ok .null
  else if s ∈ trueWords then .ok (.bool true)
  else if s ∈ falseWords then .ok (.bool false)
  else match whole? text, decimal? text with
    | some n, _ => n.map .int
    | none, some x => .ok (.decimal x)
    | none, none => .ok (.str s)

end Refuter.Settings.Plain
