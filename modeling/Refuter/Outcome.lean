import Refuter.Error

/-! # Outcomes

A search ends in one of three ways. -/

namespace Refuter

/-- How a search ended. -/
inductive Outcome where
  /-- The contradiction was derived: the query follows. -/
  | proved
  /-- Nothing more can be derived: the query does not follow. -/
  | saturated
  /-- The cap on derived clauses was reached first. -/
  | inconclusive
  deriving Repr, DecidableEq, Inhabited

namespace Outcome

/-- The name of an outcome. -/
def name : Outcome → String
  | .proved => "proved"
  | .saturated => "saturated"
  | .inconclusive => "inconclusive"

/-- The outcome of a name. -/
def ofName? : String → Option Outcome
  | "proved" => some .proved
  | "saturated" => some .saturated
  | "inconclusive" => some .inconclusive
  | _ => none

/-- The outcome named by a value. -/
def ofJson (value : Json) : Except Error Outcome :=
  let named := match value with
    | .str s => ofName? s
    | _ => none
  match named with
  | some outcome => .ok outcome
  | none => .error (.unknownOutcome value.shown)

/-- A search in one line: the number of its steps, and how it ended. -/
def summary (steps : Nat) (outcome : Option Outcome) : String :=
  "Proof(steps=" ++ intText steps ++ ", outcome=" ++ (outcome.map name).getD "None" ++ ")"

theorem ofName?_name (o : Outcome) : ofName? o.name = some o := by
  cases o <;> rfl

end Outcome

end Refuter
