import Refuter.Builder.Basic
import Refuter.Saturation.Registry
import Refuter.Saturation.Run

/-! # The engine

An engine owns a list of clauses, its *base*. A query is negated, added to a
fresh working set made of the base, and refuted there; the base itself never
changes. What does change is the builder, which hands out names, and the
status, which tells how the last query ended.
-/

namespace Refuter

/-- What an engine has been doing. -/
inductive Status where
  /-- No query so far. -/
  | initialized
  /-- A query is being refuted. -/
  | searching
  /-- The last query ended in this way. -/
  | decided (outcome : Outcome)
  deriving Repr, DecidableEq, Inhabited

/-- The name of a status. -/
def Status.name : Status → String
  | .initialized => "initialized"
  | .searching => "searching"
  | .decided outcome => outcome.name

/-- A base of clauses ready to answer queries. -/
structure Engine where
  /-- The clauses, all numbered. -/
  base : List NumberedClause
  /-- The loop that searches. -/
  loop : Loop
  /-- The builder that negates queries. -/
  builder : Builder
  /-- What the engine has been doing. -/
  status : Status := .initialized
  deriving Repr, DecidableEq

/-- What a query has to tell, besides its derivation. -/
inductive QueryEvent where
  /-- The negated query joined the working set, or was there already. -/
  | searching (query : String) (negated : NumberedClause)
  /-- A pass was made. -/
  | pass (event : PassEvent)
  /-- The query was decided. -/
  | decided (query : String) (outcome : Outcome) (steps : Nat) (passes : Int)
  deriving Repr, DecidableEq

/-- The answer to a query. -/
structure Answer where
  /-- The engine afterwards. -/
  engine : Engine
  /-- The finished derivation, or why there is none. -/
  result : Except Error Derivation
  /-- What happened, in order. -/
  events : List QueryEvent := []

namespace Engine

/-! ### Making an engine -/

/-- Numbers clauses from left to right: a given number stays, a missing one
    becomes the next above all numbers so far. -/
def numberFrom (next : Int) : List LabelledClause → List NumberedClause
  | [] => []
  | c :: rest =>
    let id := c.id.getD next
    c.toClause.withId id :: numberFrom (max next (id + 1)) rest

/-- Numbers clauses, from one. -/
def number (clauses : List LabelledClause) : List NumberedClause :=
  numberFrom 1 clauses

/-- A builder that keeps clear of the variables and names of the clauses. -/
def builderFor (clauses : List NumberedClause) : Builder :=
  clauses.foldl (fun builder c =>
    { builder with supply := builder.supply.reserve c.toClause.vars }.noteSymbols
      c.toClause.text.toList) {}

/-- The engine of a list of clauses. Without a builder one is made that keeps
    clear of the clauses. -/
def ofClauses (clauses : List LabelledClause) (loop : Loop) (builder : Option Builder) : Engine :=
  let base := number clauses
  { base, loop, builder := builder.getD (builderFor base) }

/-- The engine of a list of sentences, which must have been converted by the
    builder. -/
def ofSentences (clauses : List NumberedClause) (loop : Loop) (builder : Builder) : Engine :=
  ofClauses (clauses.map NumberedClause.labelled) loop (some builder)

/-! ### Queries -/

/-- Adds the negated query to a working set. If the same clause is there
    already, its number is used. -/
def place (ws : WorkingSet) (negated : Clause) : NumberedClause × WorkingSet :=
  match ws.add negated with
  | (some numbered, ws) => (numbered, ws)
  | (none, ws) =>
    match ws.clauses.find? fun c => c.toClause.same negated with
    | some existing => (negated.withId existing.id, ws)
    | none => (negated.withId ws.nextId, ws)

/-- Refutes a negated query on a fresh working set. What is reported goes behind
    what the trace holds already. -/
def search (engine : Engine) (query : String) (negated : Clause) (trace : List Record := []) :
    Answer :=
  match WorkingSet.ofClauses (engine.base.map NumberedClause.labelled) with
  | .error e => { engine, result := .error e }
  | .ok ws =>
    let (negated, ws) := place ws negated
    let d : Derivation :=
      { working := ws, query := some query, negatedQuery := some negated, trace }
    let run := engine.loop.run d
    let before := .searching query negated :: run.events.map .pass
    match run.result with
    | .error e => { engine := { engine with status := .searching }, result := .error e, events := before }
    | .ok outcome =>
      { engine := { engine with status := .decided outcome }
        result := .ok run.derivation
        events := before ++ [.decided query outcome run.derivation.length run.derivation.passes] }

/-- Attempts to prove a query. Names used up by the builder stay used, even if
    the query is refused. -/
def prove (engine : Engine) (query : String) (trace : List Record := []) : Answer :=
  match Build.negate query engine.builder with
  | (.error e, builder) => { engine := { engine with builder }, result := .error e }
  | (.ok negated, builder) => search { engine with builder } query negated trace

/-- Attempts to prove a value that should be a query. -/
def proveValue (engine : Engine) (query : Json) (trace : List Record := []) : Answer :=
  match query with
  | .str s => engine.prove s trace
  | value => { engine, result := .error (.notText value) }

/-- Does the query follow? An undecided search is an error. -/
def verdict (loop : Loop) (d : Derivation) : Except Error Bool :=
  match d.outcome with
  | some .inconclusive => .error (.limitExceeded (loop.cap.getD 0))
  | some .proved => .ok true
  | _ => .ok false

end Engine

end Refuter
