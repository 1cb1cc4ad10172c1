import Refuter.Resolution
import Refuter.Trace.Record
import Refuter.WorkingSet.Basic

/-! # Derivations

The record of one attempt to refute a negated query: the working set, the
steps in order and, once the search is over, its outcome. Each step and the
end are also reported to the trace.
-/

namespace Refuter

/-- A clause derived from two clauses of the working set. -/
structure Step where
  /-- The number of the step, from one. -/
  number : Int
  /-- The left parent. -/
  left : NumberedClause
  /-- The right parent. -/
  right : NumberedClause
  /-- The clause derived. -/
  resolvent : NumberedClause
  /-- The unifier used. -/
  unifier : Substitution
  deriving Repr, DecidableEq

/-- An attempt to refute a negated query. -/
structure Derivation where
  /-- The clauses and what was tried. -/
  working : WorkingSet
  /-- The query as written. -/
  query : Option String := none
  /-- The clause that negates the query. -/
  negatedQuery : Option NumberedClause := none
  /-- The steps in order. -/
  steps : List Step := []
  /-- How the search ended, once it is over. -/
  outcome : Option Outcome := none
  /-- The number of passes completed. -/
  passes : Int := 0
  /-- What was reported to the trace. -/
  trace : List Record := []
  deriving Repr, DecidableEq

namespace Derivation

/-- The number of clauses derived. -/
def length (d : Derivation) : Nat :=
  d.steps.length

/-- The contradiction, if the last step derived it. -/
def emptyClause (d : Derivation) : Option NumberedClause :=
  match d.steps.getLast? with
  | some step => if step.resolvent.toClause.isEmpty then some step.resolvent else none
  | none => none

/-- The trace record of a step. -/
def stepRecord (step : Step) : Record :=
  .step step.number step.left.id step.right.id step.left.toClause.text step.right.toClause.text
    step.resolvent.toClause.text

/-- Records a derived clause that has joined the working set. -/
def addStep (d : Derivation) (left right resolvent : NumberedClause) (unifier : Substitution) :
    Derivation :=
  let step := { number := d.length + 1, left, right, resolvent, unifier }
  { d with steps := d.steps ++ [step], trace := d.trace ++ [stepRecord step] }

/-- Sets the outcome, once. -/
def finish (d : Derivation) (outcome : Outcome) : Except Error Derivation :=
  match d.outcome with
  | some _ => .error .alreadyFinished
  | none => .ok { d with
      outcome := some outcome
      trace := d.trace ++ [.terminal outcome d.length d.working.size] }

/-- A derivation in one line. -/
def summary (d : Derivation) : String :=
  Outcome.summary d.length d.outcome

end Derivation

end Refuter
