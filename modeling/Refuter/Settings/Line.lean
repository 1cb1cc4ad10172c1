import Refuter.Settings.Quotation
import Refuter.Text.Blank

/-! # Lines of a settings document

A line says something unless it is empty or a comment. It may start a member of
a mapping (`key: value`) or an item of a list (`- value`); otherwise it is a
value by itself. How far it is indented tells where it belongs.

Only blanks can stand between the parts of a line, so a tab outside quotes is
refused. A comment starts with a number sign behind a blank.
-/

namespace Refuter.Settings

/-- A line that says something. -/
structure Line where
  /-- The number of blanks in front. -/
  indent : Nat
  /-- What it says, without blanks at the ends. -/
  content : List Char
  deriving Repr, DecidableEq

namespace Line

/-- Drops the blanks at both ends. -/
def trim (text : List Char) : List Char :=
  ((text.dropWhile (· = ' ')).reverse.dropWhile (· = ' ')).reverse

/-- The line that a text is, if it says something. -/
def ofText? (text : List Char) : Except Error (Option Line) :=
  match trim text with
  | [] | '#' :: _ => .ok none
  | '\t' :: _ => .error .unscannable
  | content => .ok (some { indent := (text.takeWhile (· = ' ')).length, content })

/-! ### Characters -/

/-- May a character stand in a document? The control characters may not, line
    breaks and tabs apart. -/
def isAllowed (c : Char) : Bool :=
  let n := c.toNat
  n == 0x09 || n == 0x0A || n == 0x0D || (0x20 ≤ n && n ≤ 0x7E) || n == 0x85
    || (0xA0 ≤ n && n ≤ 0xFFFD) || 0x10000 ≤ n

/-- Writes every line break as LF and drops a byte order mark in front. -/
def unify (text : List Char) : List Char :=
  let text := (Text.unifyBreaks text).map fun c =>
    if c.toNat = 0x85 ∨ c.toNat = 0x2028 ∨ c.toNat = 0x2029 then '\n' else c
  match text with
  | c :: rest => if c.toNat = 0xFEFF then rest else text
  | [] => []

/-- The lines of a document that say something. -/
def ofDocument (text : String) : Except Error (List Line) :=
  match text.toList.find? (!isAllowed ·) with
  | some c => .error (.strayCharacter c)
  | none => do
    let lines ← (Text.splitAt '\n' (unify text.toList)).mapM ofText?
    return lines.filterMap id

/-! ### Comments -/

/-- A text up to a comment, which stands in front or behind a blank. -/
def beforeComment : List Char → List Char
  | [] => []
  | '#' :: _ => []
  | c :: rest => c :: go c rest
where
  /-- What follows a character. -/
  go (last : Char) : List Char → List Char
    | [] => []
    | '#' :: rest => if last = ' ' then [] else '#' :: go '#' rest
    | c :: rest => c :: go c rest

/-- Says a text nothing but a comment? -/
def isSilent (text : List Char) : Bool :=
  (trim (beforeComment text)).isEmpty

/-! ### Members and items -/

/-- Cuts a text at the first colon that stands before a blank or at the end. -/
def cutAtColon? : List Char → Option (List Char × List Char)
  | [] => none
  | ':' :: rest =>
    match rest with
    | [] => some ([], [])
    | c :: _ =>
      if c = ' ' ∨ c = '\t' then some ([], rest)
      else (cutAtColon? rest).map fun (k, v) => (':' :: k, v)
  | c :: rest => (cutAtColon? rest).map fun (k, v) => (c :: k, v)

/-- Does a text start a list or mapping in brackets? -/
def isBracketed : List Char → Bool
  | '[' :: _ | '\x7b' :: _ => true
  | _ => false

/-- The key of a line, which is quoted or plain. -/
inductive Key where
  /-- A text in quotes. -/
  | quoted (text : List Char)
  /-- A plain text. -/
  | plain (text : List Char)
  deriving Repr, DecidableEq

/-- The key of a line, and the text of its value. -/
def keyed? (content : List Char) : Option (Except Error (Key × List Char)) :=
  match readQuotation content with
  | some (.error e) => some (.error e)
  | some (.ok (name, behind)) =>
    match cutAtColon? (trim behind) with
    | some ([], value) => some (.ok (.quoted name, trim value))
    | _ => none
  | none =>
    if isBracketed content then none
    else match cutAtColon? content with
      | none => none
      | some (key, value) =>
        if beforeComment key ≠ key then none
        else if key.contains '\t' then some (.error .unscannable)
        else some (.ok (.plain (trim key), trim value))

/-- The text of the item that a line starts. -/
def item? : List Char → Option (List Char)
  | ['-'] => some []
  | '-' :: ' ' :: rest => some (trim rest)
  | _ => none

/-- Is it a line that starts an item? -/
def isItem (line : Line) : Bool :=
  (item? line.content).isSome

theorem length_trim_le (text : List Char) : (trim text).length ≤ text.length := by
  have h₁ := Text.length_dropWhile_le (· = ' ') text
  have h₂ := Text.length_dropWhile_le (· = ' ') (text.dropWhile (· = ' ')).reverse
  simp only [trim, List.length_reverse] at *
  omega

/-- **The text of an item is shorter than its line.** -/
theorem length_item? {content text : List Char} (h : item? content = some text) :
    text.length < content.length := by
  unfold item? at h
  split at h
  · obtain rfl : [] = text := by simpa using h
    simp
  · rename_i rest
    obtain rfl : trim rest = text := by simpa using h
    have := length_trim_le rest
    simp only [List.length_cons]
    omega
  · simp at h

end Line

end Refuter.Settings
