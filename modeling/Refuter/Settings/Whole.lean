import Refuter.Json.Basic
import Refuter.Text.Blank
import Refuter.Text.DecimalDigit

/-! # Whole numbers in settings

A number in a text may have margins of white space, a sign in front, leading
zeros, digits of any script, and single underscores between digits. The
information separators U+001C to U+001F are no margin, though they are blanks
elsewhere. A number of too many digits is not read.
-/

namespace Refuter.Settings

/-- May a character stand around a number? -/
def isMargin (c : Char) : Bool :=
  Text.isBlank c && !(0x1C ≤ c.toNat && c.toNat ≤ 0x1F)

/-- Drops the margins of a number. -/
def dropMargins (text : List Char) : List Char :=
  ((text.dropWhile isMargin).reverse.dropWhile isMargin).reverse

/-- Reads digits with single underscores between them, from `value` on. -/
def readDigits (value : Nat) : List Char → Option Nat
  | [] => some value
  | '_' :: c :: rest => (Text.digitValue? c).bind fun d => readDigits (value * 10 + d) rest
  | c :: rest => (Text.digitValue? c).bind fun d => readDigits (value * 10 + d) rest

/-- Are there more digits than are read? Underscores do not count. -/
def isOversized (digits : List Char) : Bool :=
  Scalar.maxDigits < (digits.filter (· ≠ '_')).length

/-- Reads a natural number, which starts with a digit. -/
def readNatural (text : List Char) : Option Nat :=
  if isOversized text then none
  else match text with
    | [] => none
    | c :: rest => (Text.digitValue? c).bind fun d => readDigits d rest

/-- Reads a whole number. -/
def readWhole (text : String) : Option Int :=
  match dropMargins text.toList with
  | '-' :: rest => (readNatural rest).map fun n => -(n : Int)
  | '+' :: rest => (readNatural rest).map Int.ofNat
  | rest => (readNatural rest).map Int.ofNat

end Refuter.Settings
