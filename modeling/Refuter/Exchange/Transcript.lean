import Refuter.Derivation.Graph
import Refuter.Exchange.Encode

/-! # Derivations that were read

A derivation that was read from a text may hold any values, but its steps name
its clauses. That is enough for its graph: the nodes are the positions of the
clauses in the list. Where all values are what their places ask for, it stands
for a derivation (`Transcript.derivation?`).
-/

namespace Refuter.Exchange

/-- The parts of a derivation that was read. -/
structure Transcript where
  /-- The query. -/
  query : Value
  /-- The number of the negated query, or the absent value. -/
  negatedQuery : Value
  /-- How the search ended, once it is over. -/
  outcome : Option Outcome
  /-- The number of passes. -/
  passes : Value
  /-- The clauses. -/
  clauses : List Value
  /-- The steps. -/
  steps : List Value

/-- The parts of a value that is a derivation. -/
def Transcript.ofValue? : Value → Option Transcript
  | .derivation query negatedQuery outcome passes clauses steps =>
    some { query, negatedQuery, outcome, passes, clauses, steps }
  | _ => none

/-- A step with the positions of its clauses. -/
structure TracedStep where
  /-- The number of the step. -/
  number : Value
  /-- What the step joins. -/
  link : Link Nat
  /-- The unifier. -/
  unifier : Value

namespace Transcript

/-- Has the clause this number? -/
def hasNumber (number : Value) : Value → Bool
  | .clause id _ => id.key? = number.key?
  | _ => false

/-- The position of the clause of a number. -/
def position (t : Transcript) (number : Value) : Nat :=
  t.clauses.findIdx (hasNumber number)

/-- The clause at a position. -/
def clauseAt (t : Transcript) (i : Nat) : Value :=
  t.clauses[i]?.getD .null

/-- The number of the clause at a position. -/
def numberAt (t : Transcript) (i : Nat) : Value :=
  match t.clauseAt i with
  | .clause id _ => id
  | _ => .null

/-- The steps with the positions of their clauses. -/
def traced (t : Transcript) : List TracedStep :=
  t.steps.filterMap fun
    | .step number left right resolvent unifier =>
      some { number, link := ⟨t.position left, t.position right, t.position resolvent⟩, unifier }
    | _ => none

/-- What the steps join. -/
def links (t : Transcript) : List (Link Nat) :=
  t.traced.map (·.link)

/-- The position of the negated query. -/
def queryNode (t : Transcript) : Option Nat :=
  match t.negatedQuery with
  | .null => none
  | number => some (t.position number)

/-- The position of the contradiction, if the last step derived it. -/
def emptyNode (t : Transcript) : Option Nat := do
  let last ← t.links.getLast?
  match t.clauseAt last.resolvent with
  | .clause _ [] => some last.resolvent
  | _ => none

/-- The positions of the clauses with their origins. -/
def nodes (t : Transcript) : List (Nat × Origin) :=
  (List.range t.clauses.length).map fun i => (i, Link.origin t.links t.queryNode i)

/-- Does the clause at a position have a larger number than another? -/
def exceeds (t : Transcript) (i j : Nat) : Bool :=
  match t.numberAt i, t.numberAt j with
  | .scalar a, .scalar b => a.exceeds b
  | _, _ => false

/-- The edges, one for each pair of nodes, in order of their numbers. -/
def edges (t : Transcript) : List (Edge Nat Value) :=
  Edge.ofLinks (fun i j => !t.exceeds i j) (t.traced.map fun step => (step.number, step.link))

/-- The steps on which the contradiction depends, in order. -/
def refutation (t : Transcript) : List TracedStep :=
  match t.emptyNode with
  | none => []
  | some empty => t.traced.filter (·.link.resolvent ∈ Link.lineage t.links empty)

/-- A derivation in one line. -/
def summary (t : Transcript) : String :=
  Outcome.summary t.steps.length t.outcome

/-! ### What a transcript stands for -/

/-- The step that a value stands for, among the clauses of a working set. -/
def step? (working : WorkingSet) : Value → Option Step
  | .step (.int number) (.int left) (.int right) (.int resolvent) unifier => do
    return { number, left := ← working.get? left, right := ← working.get? right
             resolvent := ← working.get? resolvent, unifier := ← unifier.substitution? }
  | _ => none

/-- The query that a value stands for, if there is one. -/
def query? : Value → Option (Option String)
  | .null => some none
  | .str query => some (some query)
  | _ => none

/-- The negated query that a value stands for, among the clauses of a working set. -/
def negatedQuery? (working : WorkingSet) : Value → Option (Option NumberedClause)
  | .null => some none
  | .int id => (working.get? id).map some
  | _ => none

/-- The number of passes that a value stands for. -/
def passes? : Value → Option Int
  | .int passes => some passes
  | _ => none

/-- The derivation that a transcript stands for. -/
def derivation? (t : Transcript) : Option Derivation := do
  let working ← (WorkingSet.ofClauses (← t.clauses.mapM Value.clause?)).toOption
  let query ← query? t.query
  let negatedQuery ← negatedQuery? working t.negatedQuery
  let passes ← passes? t.passes
  let steps ← t.steps.mapM (step? working)
  return { working, query, negatedQuery, steps, outcome := t.outcome, passes }

end Transcript

end Refuter.Exchange
