import Refuter.Json.Basic

/-! # Tokens of JSON text

A text is cut into tokens from left to right: punctuation, words, numbers and
quoted texts, with blanks, tabs and line ends between them. Where no token can
be read the list ends in `bad`, so that whoever consumes the tokens still sees
everything that stood before.

The cutting ends because every token is at least one character long.
-/

namespace Refuter.Json

/-- A token of JSON text. -/
inductive Token where
  /-- An opening brace. -/
  | openObject
  /-- A closing brace. -/
  | closeObject
  /-- An opening bracket. -/
  | openArray
  /-- A closing bracket. -/
  | closeArray
  /-- The sign between items. -/
  | comma
  /-- The sign between a name and its value. -/
  | colon
  /-- A word, number or quoted text. -/
  | scalar (value : Scalar)
  /-- A whole number of more digits than are read. -/
  | oversized (digits : Nat)
  /-- The place where no token can be read. -/
  | bad
  deriving Repr, DecidableEq

/-! ### Quoted texts -/

/-- The value of a hexadecimal digit. -/
def hexValue? (c : Char) : Option Nat :=
  if '0' ≤ c ∧ c ≤ '9' then some (c.toNat - '0'.toNat)
  else if 'a' ≤ c ∧ c ≤ 'f' then some (c.toNat - 'a'.toNat + 10)
  else if 'A' ≤ c ∧ c ≤ 'F' then some (c.toNat - 'A'.toNat + 10)
  else none

/-- The number written by four hexadecimal digits. -/
def unit? (a b c d : Char) : Option Nat := do
  let a ← hexValue? a
  let b ← hexValue? b
  let c ← hexValue? c
  let d ← hexValue? d
  return ((a * 16 + b) * 16 + c) * 16 + d

/-- The character named by a single letter behind a backslash. -/
def shortEscape? : Char → Option Char
  | '"' => some '"'
  | '\\' => some '\\'
  | '/' => some '/'
  | 'b' => some (Char.ofNat 0x08)
  | 'f' => some (Char.ofNat 0x0C)
  | 'n' => some '\n'
  | 'r' => some '\r'
  | 't' => some '\t'
  | _ => none

/-- Half of a pair of 16-bit units that stands alone names no character and is
    kept as a half. -/
def flushHalf : Option Nat → List Char
  | none => []
  | some unit => (Text.Piece.ofCode unit).text

/-- Takes in a 16-bit unit while the first half of a pair may be waiting.
    Returns the characters now complete and the half that waits next. -/
def takeUnit (waiting : Option Nat) (unit : Nat) : List Char × Option Nat :=
  if 0xD800 ≤ unit ∧ unit < 0xDC00 then (flushHalf waiting, some unit)
  else if 0xDC00 ≤ unit ∧ unit < 0xE000 then
    match waiting with
    | some high =>
      ((Text.Piece.ofCode (0x10000 + (high - 0xD800) * 0x400 + (unit - 0xDC00))).text, none)
    | none => (flushHalf (some unit), none)
  else (flushHalf waiting ++ [Char.ofNat unit], none)

/-- Puts characters in front of a text that was read. -/
def inFront (now : List Char) (read : Option (List Char × List Char)) :
    Option (List Char × List Char) :=
  read.map fun r => (now ++ r.1, r.2)

/-- Reads a text up to its closing quote and returns what stands behind it.
    Controls must be escaped. `waiting` is the first half of a pair. -/
def readText (waiting : Option Nat) : List Char → Option (List Char × List Char)
  | [] => none
  | '"' :: rest => some (flushHalf waiting, rest)
  | '\\' :: 'u' :: a :: b :: c :: d :: rest =>
    match unit? a b c d with
    | none => none
    | some n => inFront (takeUnit waiting n).1 (readText (takeUnit waiting n).2 rest)
  | '\\' :: c :: rest =>
    match shortEscape? c with
    | none => none
    | some e => inFront (flushHalf waiting ++ [e]) (readText none rest)
  | c :: rest =>
    if c.toNat < 0x20 ∨ c = '\\' then none
    else inFront (flushHalf waiting ++ [c]) (readText none rest)

theorem inFront_eq_some {now text behind : List Char} {read : Option (List Char × List Char)} :
    inFront now read = some (text, behind) ↔ ∃ t, read = some (t, behind) ∧ text = now ++ t := by
  cases read with
  | none => simp [inFront]
  | some r =>
    obtain ⟨t, b⟩ := r
    simp only [inFront, Option.map_some, Option.some.injEq, Prod.mk.injEq]
    constructor
    · rintro ⟨rfl, rfl⟩; exact ⟨t, ⟨rfl, rfl⟩, rfl⟩
    · rintro ⟨_, ⟨rfl, rfl⟩, rfl⟩; exact ⟨rfl, rfl⟩

/-- **A quoted text is not empty:** what stands behind it is shorter. -/
theorem length_readText {waiting : Option Nat} {input text behind : List Char}
    (h : readText waiting input = some (text, behind)) : behind.length < input.length := by
  fun_induction readText waiting input generalizing text behind with
  | case1 => simp at h
  | case2 => simp_all
  | case3 => simp at h
  | case4 waiting a b c d rest n hn ih =>
    obtain ⟨t, ht, _⟩ := inFront_eq_some.1 h
    have := ih ht
    simp only [List.length_cons]; omega
  | case5 => simp at h
  | case6 waiting c rest _ e he ih =>
    obtain ⟨t, ht, _⟩ := inFront_eq_some.1 h
    have := ih ht
    simp only [List.length_cons]; omega
  | case7 => simp at h
  | case8 waiting c rest _ _ _ _ ih =>
    obtain ⟨t, ht, _⟩ := inFront_eq_some.1 h
    have := ih ht
    simp only [List.length_cons]; omega

/-! ### Numbers -/

/-- The natural number written by ASCII digits. -/
def ofDigits (digits : List Char) : Nat :=
  digits.foldl (fun n c => n * 10 + (c.toNat - '0'.toNat)) 0

/-- Cuts off the digits in front. -/
def takeDigits (text : List Char) : List Char × List Char :=
  (text.takeWhile Char.isDigit, text.dropWhile Char.isDigit)

/-- The whole part of a number: a lone zero, or digits that start with none. -/
def takeWhole : List Char → List Char × List Char
  | '0' :: rest => (['0'], rest)
  | text => takeDigits text

/-- A point with at least one digit behind it. -/
def takeFraction : List Char → List Char × List Char
  | '.' :: rest =>
    let (digits, behind) := takeDigits rest
    if digits.isEmpty then ([], '.' :: rest) else (digits, behind)
  | text => ([], text)

/-- An optional sign; tells whether it is a minus. -/
def dropSign : List Char → Bool × List Char
  | '-' :: rest => (true, rest)
  | '+' :: rest => (false, rest)
  | rest => (false, rest)

/-- The letter `e` with an optional sign and at least one digit behind it. -/
def takeExponent : List Char → Option Int × List Char
  | e :: rest =>
    if e = 'e' ∨ e = 'E' then
      let (negative, tail) := dropSign rest
      let (digits, behind) := takeDigits tail
      if digits.isEmpty then (none, e :: rest)
      else (some (if negative then -(ofDigits digits : Int) else ofDigits digits), behind)
    else (none, e :: rest)
  | [] => (none, [])

/-- The whole number of some digits, unless they are too many. -/
def wholeToken (negative : Bool) (digits : List Char) : Token :=
  if Scalar.maxDigits < digits.length then .oversized digits.length
  else .scalar (.int (Double.signed negative (ofDigits digits)))

/-- The decimal number of some digits and a power of ten. -/
def decimalToken (negative : Bool) (digits : List Char) (power : Int) : Token :=
  .scalar (.decimal (Double.ofDecimal negative (ofDigits digits) power))

/-- Reads a number without its sign: the longest text that is one. -/
def readMagnitude (negative : Bool) (text : List Char) : Option (Token × List Char) :=
  let (whole, afterWhole) := takeWhole text
  if whole.isEmpty then none
  else
    let (fraction, afterFraction) := takeFraction afterWhole
    let (power, behind) := takeExponent afterFraction
    if fraction.isEmpty && power.isNone then some (wholeToken negative whole, behind)
    else
      some (decimalToken negative (whole ++ fraction) (power.getD 0 - fraction.length), behind)

/-- Reads a number. -/
def readNumber : List Char → Option (Token × List Char)
  | '-' :: rest => readMagnitude true rest
  | text => readMagnitude false text

theorem length_takeDigits (text : List Char) : (takeDigits text).2.length ≤ text.length := by
  unfold takeDigits
  induction text with
  | nil => simp
  | cons c rest ih =>
    simp only [List.dropWhile_cons]
    split
    · exact Nat.le_succ_of_le ih
    · exact Nat.le_refl _

theorem length_takeWhole {text : List Char} (h : (takeWhole text).1.isEmpty = false) :
    (takeWhole text).2.length < text.length := by
  unfold takeWhole at h ⊢
  split
  · simp
  · rename_i text' _
    cases text with
    | nil => simp [takeDigits] at h
    | cons c rest =>
      have hd : c.isDigit = true := by
        by_cases hc : c.isDigit = true
        · exact hc
        · simp [takeDigits, hc] at h
      have := length_takeDigits rest
      simp only [takeDigits, List.dropWhile_cons, hd, if_true, List.length_cons] at *
      omega

theorem length_takeFraction (text : List Char) : (takeFraction text).2.length ≤ text.length := by
  unfold takeFraction
  split
  · rename_i rest
    have := length_takeDigits rest
    dsimp only
    split
    · exact Nat.le_refl _
    · simp only [List.length_cons]; omega
  · exact Nat.le_refl _

theorem length_dropSign (text : List Char) : (dropSign text).2.length ≤ text.length := by
  unfold dropSign
  split <;> simp

theorem length_takeExponent (text : List Char) : (takeExponent text).2.length ≤ text.length := by
  unfold takeExponent
  split
  · rename_i e rest
    have h₁ := length_dropSign rest
    have h₂ := length_takeDigits (dropSign rest).2
    split
    · dsimp only
      split
      · exact Nat.le_refl _
      · simp only [List.length_cons]; omega
    · exact Nat.le_refl _
  · exact Nat.le_refl _

theorem length_readMagnitude {negative : Bool} {text behind : List Char} {token : Token}
    (h : readMagnitude negative text = some (token, behind)) : behind.length < text.length := by
  unfold readMagnitude at h
  dsimp only at h
  split at h
  · simp at h
  · rename_i hw
    have h₁ := length_takeWhole (by simpa using hw)
    have h₂ := length_takeFraction (takeWhole text).2
    have h₃ := length_takeExponent (takeFraction (takeWhole text).2).2
    split at h <;> simp only [Option.some.injEq, Prod.mk.injEq] at h <;> rw [← h.2] <;> omega

/-- **A number is not empty:** what stands behind it is shorter. -/
theorem length_readNumber {text behind : List Char} {token : Token}
    (h : readNumber text = some (token, behind)) : behind.length < text.length := by
  unfold readNumber at h
  split at h
  · exact Nat.lt_succ_of_lt (length_readMagnitude h)
  · exact length_readMagnitude h

/-! ### The token list -/

/-- The signs and words that are tokens by themselves. -/
def readFixed : List Char → Option (Token × List Char)
  | '\x7b' :: rest => some (.openObject, rest)
  | '\x7d' :: rest => some (.closeObject, rest)
  | '[' :: rest => some (.openArray, rest)
  | ']' :: rest => some (.closeArray, rest)
  | ',' :: rest => some (.comma, rest)
  | ':' :: rest => some (.colon, rest)
  | 'n' :: 'u' :: 'l' :: 'l' :: rest => some (.scalar .null, rest)
  | 't' :: 'r' :: 'u' :: 'e' :: rest => some (.scalar (.bool true), rest)
  | 'f' :: 'a' :: 'l' :: 's' :: 'e' :: rest => some (.scalar (.bool false), rest)
  | 'N' :: 'a' :: 'N' :: rest => some (.scalar (.decimal .nan), rest)
  | 'I' :: 'n' :: 'f' :: 'i' :: 'n' :: 'i' :: 't' :: 'y' :: rest =>
    some (.scalar (.decimal (.infinite false)), rest)
  | '-' :: 'I' :: 'n' :: 'f' :: 'i' :: 'n' :: 'i' :: 't' :: 'y' :: rest =>
    some (.scalar (.decimal (.infinite true)), rest)
  | _ => none

/-- Reads one token at the start of a text. -/
def readToken (text : List Char) : Option (Token × List Char) :=
  match readFixed text with
  | some found => some found
  | none =>
    match text with
    | '"' :: rest => (readText none rest).map fun (s, behind) =>
        (.scalar (.str (String.ofList s)), behind)
    | _ => readNumber text

theorem length_readFixed {text behind : List Char} {token : Token}
    (h : readFixed text = some (token, behind)) : behind.length < text.length := by
  unfold readFixed at h
  split at h
  case h_13 => simp at h
  all_goals
    simp only [Option.some.injEq, Prod.mk.injEq] at h
    obtain ⟨_, rfl⟩ := h
    simp only [List.length_cons]
    omega

/-- **A token is not empty:** what stands behind it is shorter. -/
theorem length_readToken {text behind : List Char} {token : Token}
    (h : readToken text = some (token, behind)) : behind.length < text.length := by
  unfold readToken at h
  split at h
  · rename_i found hf
    obtain rfl : found = (token, behind) := by simpa using h
    exact length_readFixed hf
  · split at h
    · simp only [Option.map_eq_some_iff, Prod.mk.injEq, Prod.exists] at h
      obtain ⟨s, b, hr, _, rfl⟩ := h
      exact Nat.lt_succ_of_lt (length_readText hr)
    · exact length_readNumber h

/-- May a character stand between tokens? -/
def isGap (c : Char) : Bool :=
  c = ' ' || c = '\t' || c = '\n' || c = '\r'

/-- The tokens of a text, up to the first place where none can be read. -/
def tokens (text : List Char) : List Token :=
  match text with
  | [] => []
  | c :: rest =>
    if isGap c then tokens rest
    else match _h : readToken (c :: rest) with
      | none => [.bad]
      | some (token, behind) => token :: tokens behind
termination_by text.length
decreasing_by
  · simp
  · exact length_readToken _h

end Refuter.Json
