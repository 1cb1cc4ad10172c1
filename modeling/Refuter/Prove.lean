import Refuter.Engine
import Refuter.Settings.Basic

/-! # Proving in one call

One query against one list of sentences. What the call does not say is taken
from the settings.
-/

namespace Refuter

/-- Makes an engine from values that should be sentences: they are converted
    first, and only then is the loop looked up and its cap checked. -/
def Engine.ofValues (builder : Builder) (sentences : List Json) (loop : Json) (cap : Option Int) :
    Except Error Engine :=
  match Build.values sentences builder with
  | (.error e, _) => .error e
  | (.ok clauses, builder) => do
    return Engine.ofSentences clauses (← Registry.standard.createNamed loop cap) builder

/-- Attempts to prove a query from sentences. An empty loop name counts as
    none. -/
def prove (settings : Settings) (sentences : List Json) (query : Json) (loop : Option String)
    (cap : Option Int) : Except Error Derivation := do
  let loop := match loop.filter (!·.isEmpty) with
    | some name => .str name
    | none => settings.loop
  let cap := match cap with
    | some n => some n
    | none => settings.cap
  let engine ← Engine.ofValues {} sentences loop cap
  (engine.proveValue query).result

end Refuter
