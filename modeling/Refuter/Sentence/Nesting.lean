import Refuter.Sentence.Fault
import Refuter.Text.Blank

/-! # Nesting

A sentence is a text in which parentheses group. This module normalises the
spelling of the connectives and knows three things about grouping: whether the
parentheses match, how to cut a text at a connective that stands outside all
of them, and how to peel off parentheses that wrap the whole.

Connectives are single characters once spellings are normalised: `⇒` for
implication, `∧` for conjunction, `∨` for disjunction, `¬` for negation, and
the markers `∀` and `∃`.
-/

namespace Refuter.Sentence

open Text (isBlank trim)

/-! ### Spelling -/

/-- The canonical symbol of a one-character spelling. -/
def symbolOf : Char → Char
  | '→' => '⇒'
  | '&' => '∧'
  | '|' => '∨'
  | '~' => '¬'
  | '!' => '¬'
  | c => c

/-- Writes every connective by its canonical symbol. -/
def canonical : List Char → List Char
  | [] => []
  | '=' :: '>' :: rest => '⇒' :: canonical rest
  | '-' :: '>' :: rest => '⇒' :: canonical rest
  | c :: rest => symbolOf c :: canonical rest

/-- Equivalence signs, which the language lacks, in the order they are looked
    for. -/
def unsupported : List String :=
  ["<=>", "<->", "⇔", "↔"]

/-- Does `part` stand somewhere in a text? -/
def occursIn (part : List Char) : List Char → Bool
  | [] => part.isEmpty
  | c :: rest => part.isPrefixOf (c :: rest) || occursIn part rest

/-! ### Matching parentheses -/

/-- Does every parenthesis have its partner, given `depth` that are open? -/
def balancedFrom (depth : Nat) : List Char → Bool
  | [] => depth = 0
  | c :: rest =>
    if c = '(' then balancedFrom (depth + 1) rest
    else if c = ')' then
      match depth with
      | 0 => false
      | d + 1 => balancedFrom d rest
    else balancedFrom depth rest

/-- Does every parenthesis of a text have its partner? -/
def balanced (text : List Char) : Bool :=
  balancedFrom 0 text

/-- Refuses a text whose parentheses do not match. -/
def checkBalanced (text : List Char) : Except Fault Unit :=
  if balanced text then .ok () else .error .unbalanced

/-- The normal form of a sentence: canonical symbols, matching parentheses, no
    blanks at the ends, and not empty. -/
def normalize (sentence : String) : Except Fault (List Char) :=
  let chars := sentence.toList
  match unsupported.find? fun symbol => occursIn symbol.toList chars with
  | some symbol => .error (.unknownConnective symbol)
  | none =>
    let text := canonical chars
    if !balanced text then .error .unbalanced
    else if (trim text).isEmpty then .error .emptySentence
    else .ok (trim text)

/-- The sentence a report names: the one given, or the text itself when none
    is given or it is empty. -/
def cited (sentence : Option String) (text : String) : String :=
  match sentence with
  | none => text
  | some s => if s.isEmpty then text else s

/-! ### Cutting at the top level -/

/-- Puts a character in front of the first part. -/
def consFirst (c : Char) : List (List Char) → List (List Char)
  | [] => [[c]]
  | part :: parts => (c :: part) :: parts

/-- Cuts a text at every `connective` at depth zero; `depth` counts the
    parentheses open so far and is negative behind an unmatched closing one. -/
def cutFrom (connective : Char) (depth : Int) : List Char → List (List Char)
  | [] => [[]]
  | c :: rest =>
    if c = '(' then consFirst c (cutFrom connective (depth + 1) rest)
    else if c = ')' then consFirst c (cutFrom connective (depth - 1) rest)
    else if c = connective ∧ depth = 0 then [] :: cutFrom connective depth rest
    else consFirst c (cutFrom connective depth rest)

/-- The parts of a text between the occurrences of `connective` outside all
    parentheses, without blanks at their ends. -/
def splitTop (connective : Char) (text : List Char) : List (List Char) :=
  (cutFrom connective 0 text).map trim

theorem consFirst_ne_nil (c : Char) (parts : List (List Char)) : consFirst c parts ≠ [] := by
  cases parts <;> simp [consFirst]

theorem cutFrom_ne_nil (connective : Char) (depth : Int) (text : List Char) :
    cutFrom connective depth text ≠ [] := by
  cases text with
  | nil => simp [cutFrom]
  | cons c rest =>
    simp only [cutFrom]
    split
    · exact consFirst_ne_nil _ _
    · split
      · exact consFirst_ne_nil _ _
      · split
        · simp
        · exact consFirst_ne_nil _ _

theorem length_consFirst (c : Char) {parts : List (List Char)} (h : parts ≠ []) :
    (consFirst c parts).flatten.length + (consFirst c parts).length
      = parts.flatten.length + parts.length + 1 := by
  cases parts with
  | nil => exact absurd rfl h
  | cons part parts =>
    simp only [consFirst, List.flatten_cons, List.length_append, List.length_cons]
    omega

/-- **Cutting loses only the connectives:** the parts and the cuts between them
    make up the length of the text. -/
theorem length_cutFrom (connective : Char) (text : List Char) (depth : Int) :
    (cutFrom connective depth text).flatten.length + (cutFrom connective depth text).length
      = text.length + 1 := by
  induction text generalizing depth with
  | nil => simp [cutFrom]
  | cons c rest ih =>
    simp only [cutFrom]
    split
    · rw [length_consFirst _ (cutFrom_ne_nil _ _ _), ih]; rfl
    · split
      · rw [length_consFirst _ (cutFrom_ne_nil _ _ _), ih]; rfl
      · split
        · have := ih depth
          simp only [List.flatten_cons, List.nil_append, List.length_cons]
          omega
        · rw [length_consFirst _ (cutFrom_ne_nil _ _ _), ih]; rfl

/-- **Real parts are shorter:** when there is something to cut, every part is
    shorter than the text. -/
theorem length_lt_of_mem_splitTop {connective : Char} {text part : List Char}
    (h : part ∈ splitTop connective text) (hcut : 1 < (splitTop connective text).length) :
    part.length < text.length := by
  simp only [splitTop, List.mem_map, List.length_map] at h hcut
  obtain ⟨raw, hraw, rfl⟩ := h
  have h₁ := length_cutFrom connective text 0
  have h₂ : raw.length ≤ (cutFrom connective 0 text).flatten.length :=
    (List.sublist_flatten_of_mem hraw).length_le
  have h₃ := Text.length_trim_le raw
  omega

/-! ### Wrapping parentheses -/

/-- Is the last character the partner of a parenthesis that was opened just
    before? `depth` counts the parentheses opened since. -/
def closesAtEnd (depth : Nat) : List Char → Bool
  | [] => false
  | c :: rest =>
    if c = '(' then closesAtEnd (depth + 1) rest
    else if c = ')' then
      match depth with
      | 0 => rest.isEmpty
      | d + 1 => closesAtEnd d rest
    else closesAtEnd depth rest

/-- What stands inside one pair of parentheses around the whole text. -/
def inside? : List Char → Option (List Char)
  | '(' :: rest => if closesAtEnd 0 rest then some rest.dropLast else none
  | _ => none

theorem length_inside? {text inner : List Char} (h : inside? text = some inner) :
    inner.length < text.length := by
  unfold inside? at h
  split at h
  · split at h
    · obtain rfl := by simpa using h
      simp only [List.length_cons, List.length_dropLast]
      omega
    · cases h
  · cases h

/-- Removes blanks and whole wrapping pairs of parentheses, as often as there
    are any. -/
def unwrap (text : List Char) : List Char :=
  match _h : inside? (trim text) with
  | some inner => unwrap inner
  | none => trim text
termination_by text.length
decreasing_by
  exact Nat.lt_of_lt_of_le (length_inside? _h) (Text.length_trim_le text)

theorem length_unwrap_le (text : List Char) : (unwrap text).length ≤ text.length := by
  fun_induction unwrap text with
  | case1 text inner h ih =>
    have h₁ := length_inside? h
    have h₂ := Text.length_trim_le text
    omega
  | case2 text h => exact Text.length_trim_le text

end Refuter.Sentence
