import Refuter.Sentence.Nesting

/-! # Quantifiers

A quantifier block is a marker, a list of lower-case names separated by commas
and an optional dot, with blanks between the parts. Blocks stand in front of a
formula, possibly with parentheses around the whole; `leading` takes them all
off.
-/

namespace Refuter.Sentence

open Text (isBlank)

/-- The two markers. -/
inductive Marker where
  /-- For all individuals, written `∀`. -/
  | universal
  /-- For some individual, written `∃`. -/
  | existential
  deriving Repr, DecidableEq

/-- The marker written by a character. -/
def marker? : Char → Option Marker
  | '∀' => some .universal
  | '∃' => some .existential
  | _ => none

/-- A marker with the names it binds. -/
structure Block where
  /-- The marker. -/
  marker : Marker
  /-- The names in the order written. -/
  names : List String
  deriving Repr, DecidableEq

/-- May a character stand in a bound name? -/
def isBoundChar (c : Char) : Bool :=
  c.isLower || c.isDigit || c = '_'

/-- A bound name at the start of a text. -/
def takeName? : List Char → Option (String × List Char)
  | [] => none
  | c :: rest =>
    if c.isLower then
      some (String.ofList (c :: rest.takeWhile isBoundChar), rest.dropWhile isBoundChar)
    else none

theorem length_takeName? {text rest : List Char} {name : String}
    (h : takeName? text = some (name, rest)) : rest.length < text.length := by
  unfold takeName? at h
  split at h
  · cases h
  · split at h
    · simp only [Option.some.injEq, Prod.mk.injEq] at h
      have := Text.length_dropWhile_le isBoundChar (by assumption)
      rw [← h.2]
      exact Nat.lt_succ_of_le this
    · cases h

/-- A comma and a further bound name, with blanks in front of both. -/
def furtherName? (text : List Char) : Option (String × List Char) :=
  match text.dropWhile isBlank with
  | ',' :: rest => takeName? (rest.dropWhile isBlank)
  | _ => none

theorem length_furtherName? {text rest : List Char} {name : String}
    (h : furtherName? text = some (name, rest)) : rest.length < text.length := by
  unfold furtherName? at h
  split at h
  · rename_i tail htail
    have h₁ := length_takeName? h
    have h₂ := Text.length_dropWhile_le isBlank tail
    have h₃ := Text.length_dropWhile_le isBlank text
    rw [htail] at h₃
    simp only [List.length_cons] at h₃
    omega
  · cases h

/-- Further bound names, as long as there are any. -/
def furtherNames (text : List Char) : List String × List Char :=
  match _h : furtherName? text with
  | none => ([], text)
  | some (name, rest) =>
    let (names, behind) := furtherNames rest
    (name :: names, behind)
termination_by text.length
decreasing_by exact length_furtherName? _h

theorem length_furtherNames_le (text : List Char) :
    (furtherNames text).2.length ≤ text.length := by
  fun_induction furtherNames text with
  | case1 => exact Nat.le_refl _
  | case2 text name rest h names behind heq ih =>
    have := length_furtherName? h
    rw [heq] at ih
    dsimp only at ih ⊢
    omega

/-- Blanks, an optional dot, and blanks again. -/
def dropDot (text : List Char) : List Char :=
  match text.dropWhile isBlank with
  | '.' :: rest => rest.dropWhile isBlank
  | rest => rest

theorem length_dropDot_le (text : List Char) : (dropDot text).length ≤ text.length := by
  have h₁ := Text.length_dropWhile_le isBlank text
  unfold dropDot
  split
  · rename_i rest hrest
    have h₂ := Text.length_dropWhile_le isBlank rest
    rw [hrest] at h₁
    simp only [List.length_cons] at h₁
    omega
  · exact h₁

/-- A quantifier block at the start of a text, and what stands behind it. -/
def block? : List Char → Option (Block × List Char)
  | [] => none
  | c :: rest =>
    match marker? c, takeName? (rest.dropWhile isBlank) with
    | some marker, some (name, behind) =>
      let further := furtherNames behind
      some (⟨marker, name :: further.1⟩, dropDot further.2)
    | _, _ => none

theorem length_block? {text rest : List Char} {block : Block}
    (h : block? text = some (block, rest)) : rest.length < text.length := by
  unfold block? at h
  split at h
  · cases h
  · rename_i c tail
    split at h
    · rename_i marker name behind hname hbehind
      simp only [Option.some.injEq, Prod.mk.injEq] at h
      have h₁ := length_takeName? hbehind
      have h₂ := Text.length_dropWhile_le isBlank tail
      have h₃ := length_furtherNames_le behind
      have h₄ := length_dropDot_le (furtherNames behind).2
      rw [← h.2]
      simp only [List.length_cons]
      omega
    · cases h

/-- All quantifier blocks in front of a formula, and the formula without them
    and without wrapping parentheses. -/
def leading (text : List Char) : List Block × List Char :=
  match _h : block? (unwrap text) with
  | none => ([], unwrap text)
  | some (block, rest) =>
    let (blocks, body) := leading rest
    (block :: blocks, body)
termination_by text.length
decreasing_by
  exact Nat.lt_of_lt_of_le (length_block? _h) (length_unwrap_le text)

theorem length_leading_le (text : List Char) : (leading text).2.length ≤ text.length := by
  fun_induction leading text with
  | case1 text h => exact length_unwrap_le text
  | case2 text block rest h blocks body heq ih =>
    have h₁ := length_block? h
    have h₂ := length_unwrap_le text
    rw [heq] at ih
    dsimp only at ih ⊢
    omega

end Refuter.Sentence
