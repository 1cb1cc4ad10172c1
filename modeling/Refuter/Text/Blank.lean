/-! # Blanks and line breaks

Two character classes decide how a text falls apart: *blanks*, which are
dropped at both ends of every part of a sentence, and *line breaks*, which end
a line of a file. They differ: U+001F is a blank and breaks no line.

Everything here works on `List Char`, because the laws of the sentence layer
are stated there.
-/

namespace Refuter.Text

/-- White space of any script: the ASCII blanks, the four information
    separators, the next-line and no-break characters and the Unicode spaces.
    The zero-width space U+200B and the mark U+FEFF are no blanks. -/
def isBlank (c : Char) : Bool :=
  let n := c.toNat
  (0x09 ≤ n && n ≤ 0x0D) || (0x1C ≤ n && n ≤ 0x20) || n == 0x85 || n == 0xA0 || n == 0x1680
    || (0x2000 ≤ n && n ≤ 0x200A) || n == 0x2028 || n == 0x2029 || n == 0x202F || n == 0x205F
    || n == 0x3000

/-- Characters that end a line. The pair CR LF ends one line, not two. -/
def isLineBreak (c : Char) : Bool :=
  let n := c.toNat
  (0x0A ≤ n && n ≤ 0x0D) || (0x1C ≤ n && n ≤ 0x1E) || n == 0x85 || n == 0x2028 || n == 0x2029

/-! ### Trimming -/

/-- Drops the blanks in front. -/
def trimLeft (text : List Char) : List Char :=
  text.dropWhile isBlank

/-- Drops the blanks behind. -/
def trimRight (text : List Char) : List Char :=
  (text.reverse.dropWhile isBlank).reverse

/-- Drops the blanks at both ends. -/
def trim (text : List Char) : List Char :=
  trimRight (trimLeft text)

theorem length_dropWhile_le (p : Char → Bool) (text : List Char) :
    (text.dropWhile p).length ≤ text.length := by
  induction text with
  | nil => simp
  | cons c rest ih =>
    rw [List.dropWhile_cons]
    split
    · exact Nat.le_succ_of_le ih
    · exact Nat.le_refl _

/-- **Trimming never lengthens.** -/
theorem length_trim_le (text : List Char) : (trim text).length ≤ text.length := by
  have h₁ := length_dropWhile_le isBlank text
  have h₂ := length_dropWhile_le isBlank (text.dropWhile isBlank).reverse
  simp only [trim, trimRight, trimLeft, List.length_reverse] at *
  omega

/-! ### Lines -/

/-- Cuts a text behind every line break; `line` holds the current line, last
    character first. A break at the very end opens no further line. -/
def linesFrom (line : List Char) : List Char → List (List Char)
  | [] => if line.isEmpty then [] else [line.reverse]
  | '\r' :: '\n' :: rest => line.reverse :: linesFrom [] rest
  | c :: rest =>
    if isLineBreak c then line.reverse :: linesFrom [] rest else linesFrom (c :: line) rest

/-- The lines of a text, without their breaks. -/
def lines (text : List Char) : List (List Char) :=
  linesFrom [] text

/-- Writes every CR LF and every lone CR as one LF, as reading a file in text
    mode does. -/
def unifyBreaks : List Char → List Char
  | [] => []
  | '\r' :: '\n' :: rest => '\n' :: unifyBreaks rest
  | '\r' :: rest => '\n' :: unifyBreaks rest
  | c :: rest => c :: unifyBreaks rest

/-! ### Splitting -/

/-- Cuts a text at every occurrence of `sep`; there is always a first part. -/
def splitAt (sep : Char) : List Char → List (List Char)
  | [] => [[]]
  | c :: rest =>
    if c = sep then [] :: splitAt sep rest
    else match splitAt sep rest with
      | [] => [[c]]
      | part :: parts => (c :: part) :: parts

end Refuter.Text
