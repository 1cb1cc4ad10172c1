import Refuter.Finite.Distinct
import Refuter.Json.Printer
import Refuter.Outcome

/-! # Exchanged values

Clauses and derivations are exchanged as JSON. An object says by its member
`_type` what it stands for: a term, a literal, a clause, a substitution or a
derivation; any other object is a plain one.

An object is taken at its word. Its members are kept as they are, also where
another value would be expected: a literal may have a number for a name, and a
clause may hold texts in place of literals. So a value can be shown, compared
and written again whatever it is made of; `Value.term?`, `Value.literal?` and
`Value.clause?` tell those that are what they say.
-/

namespace Refuter

/-- The member that says what an object is. -/
def tagField : String := "_type"

/-- What an exchanged text can hold. -/
inductive Value where
  /-- A value without parts. -/
  | scalar (s : Scalar)
  /-- A list. -/
  | arr (items : List Value)
  /-- A plain object. -/
  | obj (members : List (String × Value))
  /-- A term: its name, and whether it is a variable. -/
  | term (name isVariable : Value)
  /-- A literal: its name, its terms, and whether it is negated. -/
  | literal (name : Value) (terms : List Value) (negated : Value)
  /-- A clause: its number and its literals. -/
  | clause (id : Value) (literals : List Value)
  /-- A substitution: names and what they are bound to. -/
  | substitution (bindings : List (Value × Value))
  /-- A step of a derivation: its own number, those of its clauses, and the
      unifier. -/
  | step (number left right resolvent unifier : Value)
  /-- A derivation. The negated query is given by its number. -/
  | derivation (query negatedQuery : Value) (outcome : Option Outcome) (passes : Value)
      (clauses steps : List Value)
  deriving Inhabited

namespace Value

/-- The absent value. -/
@[match_pattern] abbrev null : Value := .scalar .null

/-- A truth value. -/
@[match_pattern] abbrev bool (b : Bool) : Value := .scalar (.bool b)

/-- A whole number. -/
@[match_pattern] abbrev int (n : Int) : Value := .scalar (.int n)

/-- A text. -/
@[match_pattern] abbrev str (s : String) : Value := .scalar (.str s)

/-- Is the value absent, false, zero or without content? -/
def isVoid : Value → Bool
  | .scalar s => s.isVoid
  | .arr items => items.isEmpty
  | .obj members => members.isEmpty
  | .clause _ literals => literals.isEmpty
  | .substitution bindings => bindings.isEmpty
  | _ => false

/-- The word for the kind of a value. -/
def kindName : Value → String
  | .scalar s => s.kindName
  | .arr _ => "list"
  | .obj _ => "dict"
  | .term .. => "Term"
  | .literal .. => "Predicate"
  | .clause .. => "Clause"
  | .substitution _ => "Substitution"
  | .step .. => "ProofStep"
  | .derivation .. => "Proof"

/-- The items of a value that has items: those of a list, the characters of a
    text, the names of an object and the literals of a clause. -/
def items? : Value → Option (List Value)
  | .arr items => some items
  | .str s => some ((Text.pieces s.toList).map fun p => .str (String.ofList p.text))
  | .obj members => some (members.map fun (name, _) => .str name)
  | .clause _ literals => some literals
  | _ => none

/-! ### The text of a value

A value has two texts: its own, and the one that shows it inside others and in
messages. They differ for texts, which are shown in quotes, and for
substitutions, which are shown with their type. -/

mutual

/-- The text of a value; with `quoted` the one that shows it. -/
def textWith (quoted : Bool) : Value → String
  | .scalar (.str s) => if quoted then Text.quoted s else s
  | .scalar s => s.shown
  | .arr items => "[" ++ ", ".intercalate (textsWith true items) ++ "]"
  | .obj members => "\x7b" ++ ", ".intercalate (memberTexts members) ++ "\x7d"
  | .term name _ => textWith false name
  | .literal name terms negated =>
    (if negated.isVoid then "" else "¬") ++ textWith false name
      ++ if terms.isEmpty then "" else "(" ++ ", ".intercalate (textsWith false terms) ++ ")"
  | .clause _ literals =>
    if literals.isEmpty then "□" else " ∨ ".intercalate (textsWith false literals)
  | .substitution bindings =>
    let inside := "\x7b" ++ ", ".intercalate (bindingTexts quoted bindings) ++ "\x7d"
    if quoted then "Substitution(mapping=" ++ inside ++ ")" else inside
  | .step .. => "ProofStep"
  | .derivation _ _ outcome _ _ steps => Outcome.summary steps.length outcome

/-- The texts of several values. -/
def textsWith (quoted : Bool) : List Value → List String
  | [] => []
  | v :: rest => textWith quoted v :: textsWith quoted rest

/-- The members of an object, as they are shown. -/
def memberTexts : List (String × Value) → List String
  | [] => []
  | (name, v) :: rest => (Text.quoted name ++ ": " ++ textWith true v) :: memberTexts rest

/-- The bindings of a substitution. -/
def bindingTexts (quoted : Bool) : List (Value × Value) → List String
  | [] => []
  | (name, v) :: rest =>
    (textWith quoted name ++ (if quoted then ": " else " -> ") ++ textWith quoted v)
      :: bindingTexts quoted rest

end

/-- The text of a value. -/
def text (v : Value) : String :=
  v.textWith false

/-- How a value is shown in messages. -/
def shown (v : Value) : String :=
  v.textWith true

/-! ### What cannot be told

A term is told by its name, so there are no words for a term whose name is no
text, nor for anything that shows one. -/

mutual

/-- Checks that a value can be told; with `quoted` that it can be shown. -/
def checkText (quoted : Bool) : Value → Except Error Unit
  | .scalar _ | .step .. | .derivation .. => .ok ()
  | .arr items => checkTexts true items
  | .obj members => checkMembers members
  | .term name _ =>
    match name with
    | .str _ => .ok ()
    | other => .error (.nameNotText quoted other.kindName)
  | .literal name terms _ => do
    checkText false name
    checkTexts false terms
  | .clause _ literals => checkTexts false literals
  | .substitution bindings => checkBindings quoted bindings

/-- Checks several values. -/
def checkTexts (quoted : Bool) : List Value → Except Error Unit
  | [] => .ok ()
  | v :: rest => do
    checkText quoted v
    checkTexts quoted rest

/-- Checks the members of an object. -/
def checkMembers : List (String × Value) → Except Error Unit
  | [] => .ok ()
  | (_, v) :: rest => do
    checkText true v
    checkMembers rest

/-- Checks the bindings of a substitution. -/
def checkBindings (quoted : Bool) : List (Value × Value) → Except Error Unit
  | [] => .ok ()
  | (name, v) :: rest => do
    checkText quoted name
    checkText quoted v
    checkBindings quoted rest

end

/-- The text of a value that must have one. -/
def told (v : Value) : Except Error String := do
  v.checkText false
  return v.text

/-- How a value is shown, which must be possible. -/
def toldShown (v : Value) : Except Error String := do
  v.checkText true
  return v.shown

/-! ### Keys

Clauses are found by their numbers and bindings by their names. Two values
count as the same there when they have the same *key*: a number is the same
whether it is written with a point or not, truth values count as one and zero,
and the order of the literals of a clause does not matter. Lists, plain objects
and substitutions have no key, nor has anything that holds one. -/

mutual

/-- The key of a value that must have one. -/
def key : Value → Except Error String
  | .scalar s => .ok s.key
  | .term name isVariable => do
    let name ← name.key
    return "Term(" ++ name ++ ", " ++ (← isVariable.key) ++ ")"
  | .literal name terms negated => do
    let name ← name.key
    let terms ← keys terms
    return "Predicate(" ++ name ++ ", [" ++ ", ".intercalate terms ++ "], " ++ (← negated.key) ++ ")"
  | .clause _ literals => do
    let keys := (Finite.distinct (← keys literals)).mergeSort fun a b => !(b < a)
    return "Clause(" ++ ", ".intercalate keys ++ ")"
  | .derivation _ _ outcome _ _ steps => .ok (Outcome.summary steps.length outcome)
  | .arr _ => .error (.noKey "list")
  | .obj _ => .error (.noKey "dict")
  | .substitution _ => .error (.noKey "Substitution")
  | .step .. => .error (.noKey "ProofStep")

/-- The keys of several values that must all have one. -/
def keys : List Value → Except Error (List String)
  | [] => .ok []
  | v :: rest => do
    let key ← v.key
    return key :: (← keys rest)

end

/-- The key of a value, if it has one. -/
def key? (v : Value) : Option String :=
  v.key.toOption

/-- Is it a number or a truth value? -/
def isNumber : Value → Bool
  | .scalar (.bool _) | .scalar (.int _) | .scalar (.decimal _) => true
  | _ => false

/-! ### Writing -/

/-- The name under which a binding is written. -/
def memberName : Value → String
  | .str s => s
  | .scalar s => String.ofList (Json.scalarText s)
  | v => v.shown

mutual

/-- A value as it is written. -/
@[simp] def toJson : Value → Json
  | .scalar s => .scalar s
  | .arr items => .arr (itemsToJson items)
  | .obj members => .obj (membersToJson members)
  | .term name isVariable =>
    .obj [(tagField, .str "Term"), ("name", name.toJson), ("is_variable", isVariable.toJson)]
  | .literal name terms negated =>
    .obj [(tagField, .str "Predicate"), ("name", name.toJson), ("terms", .arr (itemsToJson terms)),
      ("negated", negated.toJson)]
  | .clause id literals =>
    .obj [(tagField, .str "Clause"), ("id", id.toJson), ("predicates", .arr (itemsToJson literals))]
  | .substitution bindings =>
    .obj [(tagField, .str "Substitution"), ("mapping", .obj (bindingsToJson bindings))]
  | .step number left right resolvent unifier =>
    .obj [(tagField, .str "ProofStep"), ("step_number", number.toJson), ("left", left.toJson),
      ("right", right.toJson), ("resolvent", resolvent.toJson), ("substitution", unifier.toJson)]
  | .derivation query negatedQuery outcome passes clauses steps =>
    .obj [(tagField, .str "Proof"), ("query", query.toJson), ("negated_query", negatedQuery.toJson),
      ("outcome", .ofOption (fun o => .str o.name) outcome), ("passes", passes.toJson),
      ("clauses", .arr (itemsToJson clauses)), ("steps", .arr (itemsToJson steps))]

/-- Items as they are written. -/
@[simp] def itemsToJson : List Value → List Json
  | [] => []
  | v :: rest => v.toJson :: itemsToJson rest

/-- Members as they are written. -/
@[simp] def membersToJson : List (String × Value) → List (String × Json)
  | [] => []
  | (name, v) :: rest => (name, v.toJson) :: membersToJson rest

/-- Bindings as they are written. -/
@[simp] def bindingsToJson : List (Value × Value) → List (String × Json)
  | [] => []
  | (name, v) :: rest => (name.memberName, v.toJson) :: bindingsToJson rest

end

/-! ### What cannot be written

Only a value without parts can be the name of a member, and a whole number must
not have too many digits. -/

mutual

/-- Checks that a value can be written. -/
@[simp] def checkWritable : Value → Except Error Unit
  | .scalar s => if s.isWritable then .ok () else .error .unwritable
  | .arr items => checkWritableItems items
  | .obj members => checkWritableMembers members
  | .term name isVariable => do
    checkWritable name
    checkWritable isVariable
  | .literal name terms negated => do
    checkWritable name
    checkWritableItems terms
    checkWritable negated
  | .clause id literals => do
    checkWritable id
    checkWritableItems literals
  | .substitution bindings => checkWritableBindings bindings
  | .step number left right resolvent unifier => do
    checkWritable number
    checkWritable left
    checkWritable right
    checkWritable resolvent
    checkWritable unifier
  | .derivation query negatedQuery _ passes clauses steps => do
    checkWritable query
    checkWritable negatedQuery
    checkWritable passes
    checkWritableItems clauses
    checkWritableItems steps

/-- Checks several values. -/
@[simp] def checkWritableItems : List Value → Except Error Unit
  | [] => .ok ()
  | v :: rest => do
    checkWritable v
    checkWritableItems rest

/-- Checks the members of an object. -/
@[simp] def checkWritableMembers : List (String × Value) → Except Error Unit
  | [] => .ok ()
  | (_, v) :: rest => do
    checkWritable v
    checkWritableMembers rest

/-- Checks the bindings of a substitution. -/
@[simp] def checkWritableBindings : List (Value × Value) → Except Error Unit
  | [] => .ok ()
  | (.scalar _, v) :: rest => do
    checkWritable v
    checkWritableBindings rest
  | (name, _) :: _ => .error (.noMemberName name.kindName)

end

/-- A value as it is written, which must be possible. -/
def written (v : Value) : Except Error Json := do
  v.checkWritable
  return v.toJson

end Value

end Refuter
