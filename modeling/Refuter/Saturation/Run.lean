import Refuter.Saturation.Pass

/-! # Saturation

Passes follow one another until one decides the search. There is always such a
pass: without a verdict, fewer clauses are left unseen after a pass than
before it (`Pass.unseen_run_lt`), and that number of clauses is the measure of
the recursion. It is never computed.
-/

namespace Refuter

/-- What a pass has to tell. -/
inductive PassEvent where
  /-- The pass was completed. -/
  | completed (number : Int) (attempted added total : Nat)
  /-- The contradiction was derived from two clauses. -/
  | contradiction (left right : Int)
  /-- The cap was reached. -/
  | capReached (cap : Nat)
  deriving Repr, DecidableEq

/-- What there is to tell about a pass. -/
def Pass.event (loop : Loop) (p : Pass) : PassEvent :=
  match p.verdict, p.derivation.steps.getLast? with
  | some .proved, some step => .contradiction step.left.id step.right.id
  | some .inconclusive, _ => .capReached (loop.cap.getD 0)
  | _, _ =>
    .completed p.derivation.passes p.attempted p.added p.derivation.working.size

/-- A search that was decided. -/
structure Saturated where
  /-- The derivation, not yet finished. -/
  derivation : Derivation
  /-- How it was decided. -/
  outcome : Outcome
  /-- The passes in order. -/
  events : List PassEvent

/-- Passes until one decides the search, within what `base` can form. -/
def saturateFrom (loop : Loop) (base : List NumberedClause) (d : Derivation)
    (h : d.working.Within base) : Saturated :=
  let p := Pass.run loop d
  match _hv : p.verdict with
  | some outcome => ⟨p.derivation, outcome, [p.event loop]⟩
  | none =>
    let rest := saturateFrom loop base p.derivation (Pass.progress_run loop h).within
    { rest with events := p.event loop :: rest.events }
termination_by d.working.unseen base
decreasing_by exact Pass.unseen_run_lt loop h _hv

/-- Passes until one decides the search. -/
def saturate (loop : Loop) (d : Derivation) : Saturated :=
  saturateFrom loop d.working.clauses d fun _ hc _ hl => mem_formable_of_mem hc hl

/-- A search that has come to its end. -/
structure Run where
  /-- The derivation. When it could not be finished, the passes stay made. -/
  derivation : Derivation
  /-- The outcome, or the refusal to finish a derivation twice. -/
  result : Except Error Outcome
  /-- The passes in order. -/
  events : List PassEvent

/-- Ends a search with an outcome. -/
def Run.ending (d : Derivation) (outcome : Outcome) (events : List PassEvent) : Run :=
  match d.finish outcome with
  | .ok finished => ⟨finished, .ok outcome, events⟩
  | .error e => ⟨d, .error e, events⟩

/-- Runs a search to its end. A working set that holds the contradiction needs
    no pass. -/
def Loop.run (loop : Loop) (d : Derivation) : Run :=
  if d.working.hasEmpty then Run.ending d .proved []
  else
    let s := saturate loop d
    Run.ending s.derivation s.outcome s.events

end Refuter
