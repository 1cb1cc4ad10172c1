import Refuter.Text.Half
import Refuter.Text.Unprintable

/-! # Quoted text

Messages show a text between quotes, on one line and with nothing invisible
left in it. Single quotes stand around it, unless it holds a single quote and
no double one. A half is shown by its number.
-/

namespace Refuter.Text

/-- The hexadecimal digits of `n`, lower case, with zeros in front up to
    `width`. -/
def hexPadded (width n : Nat) : List Char :=
  let digits := Nat.toDigits 16 n
  List.replicate (width - digits.length) '0' ++ digits

/-- The quote that stands around a text. -/
def quoteFor (text : List Char) : Char :=
  if text.contains '\'' && !text.contains '"' then '"' else '\''

/-- A code point by its number of four digits. -/
def numbered (code : Nat) : List Char :=
  '\\' :: 'u' :: hexPadded 4 code

/-- How one character is written between `quote` marks: the mark and the
    backslash get a backslash, line ends and tabs their letter, and every other
    character without a glyph its number. -/
def quotedChar (quote c : Char) : List Char :=
  let n := c.toNat
  if c = quote ∨ c = '\\' then ['\\', c]
  else if c = '\n' then ['\\', 'n']
  else if c = '\r' then ['\\', 'r']
  else if c = '\t' then ['\\', 't']
  else if isPrintable c then [c]
  else if n < 0x100 then '\\' :: 'x' :: hexPadded 2 n
  else if n < 0x10000 then numbered n
  else '\\' :: 'U' :: hexPadded 8 n

/-- How one piece is written between `quote` marks. -/
def quotedPiece (quote : Char) : Piece → List Char
  | .char c => quotedChar quote c
  | .half n => numbered (Piece.half n).code

/-- A text between quotes, as messages show it. -/
def quoted (text : String) : String :=
  let quote := quoteFor text.toList
  String.ofList (quote :: (pieces text.toList).flatMap (quotedPiece quote) ++ [quote])

/-- The characters of a text; a half, which is none, is shown by its number. -/
def printed (text : String) : String :=
  String.ofList ((pieces text.toList).flatMap fun
    | .char c => [c]
    | .half n => numbered (Piece.half n).code)

end Refuter.Text
