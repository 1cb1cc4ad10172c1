import Refuter.Json.Basic
import Refuter.Text.Blank

/-! # Placeholders

A text in the settings may refer to the environment: `${NAME}`, or
`${NAME:fallback}` for a value to use when `NAME` is not set. A variable that
is set to the empty text counts as set; without a fallback a missing one is
empty. What is put in is not looked at again.
-/

namespace Refuter.Settings

/-- The environment: variables with their values. -/
abbrev Environment := List (String × String)

/-- May a character start the name of a variable? -/
def isVariableStart (c : Char) : Bool :=
  c.isAlpha || c = '_'

/-- May a character stand in the name of a variable? -/
def isVariableChar (c : Char) : Bool :=
  c.isAlphanum || c = '_'

/-- A placeholder behind its opening brace: the name, the fallback and what
    follows the closing brace. -/
def placeholder? (text : List Char) : Option (String × Option String × List Char) :=
  let name := text.takeWhile isVariableChar
  if (name.head?.map isVariableStart).getD false then
    match text.dropWhile isVariableChar with
    | '\x7d' :: rest => some (String.ofList name, none, rest)
    | ':' :: rest =>
      match rest.dropWhile (· ≠ '\x7d') with
      | _ :: behind =>
        some (String.ofList name, some (String.ofList (rest.takeWhile (· ≠ '\x7d'))), behind)
      | [] => none
    | _ => none
  else none

/-- The value of a variable, or its fallback. -/
def valueOf (env : Environment) (name : String) (fallback : Option String) : String :=
  (env.lookup name).getD (fallback.getD "")

theorem length_placeholder? {text rest : List Char} {name : String} {fallback : Option String}
    (h : placeholder? text = some (name, fallback, rest)) : rest.length < text.length := by
  have h₁ := Text.length_dropWhile_le isVariableChar text
  unfold placeholder? at h
  dsimp only at h
  split at h
  · split at h
    · rename_i tail heq
      rw [heq] at h₁
      simp only [Option.some.injEq, Prod.mk.injEq] at h
      rw [← h.2.2]
      exact h₁
    · rename_i tail heq
      rw [heq] at h₁
      have h₂ := Text.length_dropWhile_le (· ≠ '\x7d') tail
      split at h
      · rename_i c behind hdrop
        rw [hdrop] at h₂
        simp only [Option.some.injEq, Prod.mk.injEq] at h
        rw [← h.2.2]
        simp only [List.length_cons] at h₁ h₂
        omega
      · cases h
    · cases h
  · cases h

/-- Replaces the placeholders of a text, from left to right. -/
def expandChars (env : Environment) (text : List Char) : List Char :=
  match text with
  | [] => []
  | '$' :: '\x7b' :: rest =>
    match _h : placeholder? rest with
    | some (name, fallback, behind) =>
      (valueOf env name fallback).toList ++ expandChars env behind
    | none => '$' :: expandChars env ('\x7b' :: rest)
  | c :: rest => c :: expandChars env rest
termination_by text.length
decreasing_by
  · have := length_placeholder? _h
    simp only [List.length_cons]
    omega
  · simp
  · simp

/-- Replaces the placeholders of a text. -/
def expandText (env : Environment) (text : String) : String :=
  String.ofList (expandChars env text.toList)

mutual

/-- Replaces the placeholders in every text inside a value. Names of members
    stay as they are. -/
def expand (env : Environment) : Json → Json
  | .scalar (.str s) => .str (expandText env s)
  | .scalar s => .scalar s
  | .arr items => .arr (expandItems env items)
  | .obj members => .obj (expandMembers env members)

/-- Replaces the placeholders in the items of a list. -/
def expandItems (env : Environment) : List Json → List Json
  | [] => []
  | v :: rest => expand env v :: expandItems env rest

/-- Replaces the placeholders in the values of an object. -/
def expandMembers (env : Environment) : List (String × Json) → List (String × Json)
  | [] => []
  | (name, v) :: rest => (name, expand env v) :: expandMembers env rest

end

end Refuter.Settings
