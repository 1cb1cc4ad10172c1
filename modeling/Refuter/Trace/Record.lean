import Refuter.Outcome

/-! # Trace records

A search reports each derived clause by a *step record* and ends with exactly
one *terminal record*. Records carry texts and numbers only, so they can be
kept and written without the search they came from.
-/

namespace Refuter

/-- One line of a trace. -/
inductive Record where
  /-- A clause was derived from two others. -/
  | step (number left right : Int) (leftText rightText resolventText : String)
  /-- The search ended after `number` steps with `clauseCount` clauses. -/
  | terminal (outcome : Outcome) (number clauseCount : Int)
  deriving Repr, DecidableEq

namespace Record

/-- Does the record end a search? -/
def isTerminal : Record → Bool
  | .step .. => false
  | .terminal .. => true

/-- The number of the step a record reports, or of steps at the end. -/
def number : Record → Int
  | .step n .. => n
  | .terminal _ n _ => n

/-- The word for a terminal record: a proof ends in a contradiction. -/
def terminalKind : Outcome → String
  | .proved => "contradiction"
  | .saturated => "saturated"
  | .inconclusive => "inconclusive"

/-- The word for a record. -/
def kind : Record → String
  | .step .. => "step"
  | .terminal outcome .. => terminalKind outcome

/-- A record as it is written. -/
def toJson : Record → Json
  | .step number left right leftText rightText resolventText =>
    .obj [("kind", .str "step"), ("step_number", .int number), ("left_clause_id", .int left),
      ("right_clause_id", .int right), ("left_clause_text", .str leftText),
      ("right_clause_text", .str rightText), ("resolvent_text", .str resolventText)]
  | .terminal outcome number clauseCount =>
    .obj [("kind", .str (terminalKind outcome)), ("step_number", .int number),
      ("clause_count", .int clauseCount)]

/-- The terminal record at the end of a list of records. -/
def terminalOf (records : List Record) : Option Record :=
  records.getLast?.filter isTerminal

end Record

end Refuter
