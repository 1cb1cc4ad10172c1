import Refuter.Error
import Refuter.Json.Lexer

/-! # Quoted texts in settings

A text between double quotes may hold escapes: a letter behind a backslash
stands for a character, and `x`, `u` and `U` are followed by the two, four or
eight hexadecimal digits of a code point. Between single quotes only the quote
itself is written differently, namely twice.

A quotation ends on its line, and an escape that means nothing is refused.
-/

namespace Refuter.Settings

/-- The character that a single letter behind a backslash stands for. -/
def namedEscape? : Char → Option Nat
  | '0' => some 0x00
  | 'a' => some 0x07
  | 'b' => some 0x08
  | 't' => some 0x09
  | '\t' => some 0x09
  | 'n' => some 0x0A
  | 'v' => some 0x0B
  | 'f' => some 0x0C
  | 'r' => some 0x0D
  | 'e' => some 0x1B
  | ' ' => some 0x20
  | '"' => some 0x22
  | '/' => some 0x2F
  | '\\' => some 0x5C
  | 'N' => some 0x85
  | '_' => some 0xA0
  | 'L' => some 0x2028
  | 'P' => some 0x2029
  | _ => none

/-- The number of hexadecimal digits behind a letter that asks for them. -/
def escapeWidth? : Char → Option Nat
  | 'x' => some 2
  | 'u' => some 4
  | 'U' => some 8
  | _ => none

/-- The number written by hexadecimal digits. -/
def hexNumber? (digits : List Char) : Option Nat :=
  digits.foldlM (fun n c => (Json.hexValue? c).map (n * 16 + ·)) 0

/-- What a code point stands for. -/
def ofCode (code : Nat) : Except Error (List Char) :=
  if code < 0x110000 then .ok (Text.Piece.ofCode code).text
  else if code < 0x80000000 then .error .beyondCharacters
  else .error .beyondEscapes

/-- An escape behind its backslash: what it stands for, and what follows. -/
def escape : List Char → Except Error (List Char × List Char)
  | [] => .error .unscannable
  | c :: rest =>
    match escapeWidth? c with
    | none =>
      match namedEscape? c with
      | none => .error .unscannable
      | some n => .ok ([Char.ofNat n], rest)
    | some width =>
      match (if rest.length < width then none else hexNumber? (rest.take width)) with
      | none => .error .unscannable
      | some code => (ofCode code).map fun now => (now, rest.drop width)

theorem length_escape {text now rest : List Char} (h : escape text = .ok (now, rest)) :
    rest.length < text.length := by
  cases text with
  | nil => simp [escape] at h
  | cons d tail =>
    simp only [escape] at h
    split at h
    · split at h
      · simp at h
      · simp only [Except.ok.injEq, Prod.mk.injEq] at h
        obtain ⟨_, rfl⟩ := h
        simp
    · split at h
      · simp at h
      · rename_i width _ _ code _
        cases hc : ofCode code with
        | error e => simp [hc, Except.map] at h
        | ok now' =>
          simp only [hc, Except.map, Except.ok.injEq, Prod.mk.injEq] at h
          obtain ⟨_, rfl⟩ := h
          simp only [List.length_drop, List.length_cons]
          omega

/-- Puts characters in front of a text that was read. -/
def inFront (now : List Char) (read : Except Error (List Char × List Char)) :
    Except Error (List Char × List Char) :=
  read.map fun (s, behind) => (now ++ s, behind)

/-- Reads up to the closing double quote and returns what stands behind it. -/
def readDoubleQuoted (text : List Char) : Except Error (List Char × List Char) :=
  match text with
  | [] => .error .unscannable
  | '"' :: rest => .ok ([], rest)
  | '\\' :: rest =>
    match _h : escape rest with
    | .error e => .error e
    | .ok (now, behind) => inFront now (readDoubleQuoted behind)
  | c :: rest => inFront [c] (readDoubleQuoted rest)
termination_by text.length
decreasing_by
  · have := length_escape _h
    simp only [List.length_cons]
    omega
  · simp

/-- Reads up to the closing single quote and returns what stands behind it. -/
def readSingleQuoted : List Char → Except Error (List Char × List Char)
  | [] => .error .unscannable
  | '\x27' :: '\x27' :: rest => inFront ['\x27'] (readSingleQuoted rest)
  | '\x27' :: rest => .ok ([], rest)
  | c :: rest => inFront [c] (readSingleQuoted rest)

/-- Reads a text in quotes of either kind, if there is one, and returns what
    stands behind it. -/
def readQuotation : List Char → Option (Except Error (List Char × List Char))
  | '"' :: rest => some (readDoubleQuoted rest)
  | '\x27' :: rest => some (readSingleQuoted rest)
  | _ => none

end Refuter.Settings
