import Refuter.Json.Basic

/-! # Writing JSON

A value is written on one line, or spread over lines with a fixed number of
blanks per level. Texts keep every character as it is, except quotes,
backslashes and controls.

**Spread out.** Each item stands on a line of its own behind `indent · depth`
blanks; empty lists and objects stay together.
-/

namespace Refuter.Json

/-- How one character of a text is written. -/
def escapedChar (c : Char) : List Char :=
  if c = '"' then ['\\', '"']
  else if c = '\\' then ['\\', '\\']
  else if c = '\n' then ['\\', 'n']
  else if c = '\r' then ['\\', 'r']
  else if c = '\t' then ['\\', 't']
  else if c.toNat = 0x0C then ['\\', 'f']
  else if c.toNat = 0x08 then ['\\', 'b']
  else if c.toNat < 0x20 then '\\' :: 'u' :: Text.hexPadded 4 c.toNat
  else [c]

/-- A text between double quotes. -/
def textLiteral (s : String) : List Char :=
  '"' :: s.toList.flatMap escapedChar ++ ['"']

/-- How the numbers without digits are written. -/
def writtenWords : Double.Words where
  infinite := "Infinity"
  nan := "NaN"

/-- The text of a value without parts. -/
def scalarText : Scalar → List Char
  | .null => "null".toList
  | .bool true => "true".toList
  | .bool false => "false".toList
  | .int n => Scalar.intText n
  | .decimal x => x.text writtenWords
  | .str s => textLiteral s

/-- The line break in front of an item at the given depth; nothing when the
    value is written on one line. -/
def newline (indent : Option Nat) (depth : Nat) : List Char :=
  match indent with
  | none => []
  | some n => '\n' :: List.replicate (n * depth) ' '

/-- What stands between two items. -/
def separator (indent : Option Nat) (depth : Nat) : List Char :=
  match indent with
  | none => [',', ' ']
  | some _ => ',' :: newline indent depth

mutual

/-- The text of a value whose own items stand one level below `depth`. -/
def writeValue (indent : Option Nat) (depth : Nat) : Json → List Char
  | .scalar s => scalarText s
  | .arr [] => ['[', ']']
  | .arr (v :: rest) =>
    '[' :: newline indent (depth + 1) ++ writeValue indent (depth + 1) v
      ++ writeItems indent (depth + 1) rest ++ newline indent depth ++ [']']
  | .obj [] => ['\x7b', '\x7d']
  | .obj ((name, v) :: rest) =>
    '\x7b' :: newline indent (depth + 1) ++ textLiteral name ++ [':', ' ']
      ++ writeValue indent (depth + 1) v
      ++ writeMembers indent (depth + 1) rest ++ newline indent depth ++ ['\x7d']

/-- The items behind the first, each with the separator in front. -/
def writeItems (indent : Option Nat) (depth : Nat) : List Json → List Char
  | [] => []
  | v :: rest =>
    separator indent depth ++ writeValue indent depth v ++ writeItems indent depth rest

/-- The members behind the first, each with the separator in front. -/
def writeMembers (indent : Option Nat) (depth : Nat) : List (String × Json) → List Char
  | [] => []
  | (name, v) :: rest =>
    separator indent depth ++ textLiteral name ++ [':', ' '] ++ writeValue indent depth v
      ++ writeMembers indent depth rest

end

/-- The text of a value: on one line without `indent`, spread out with it. -/
def render (indent : Option Nat) (value : Json) : String :=
  String.ofList (writeValue indent 0 value)

end Refuter.Json
