import Refuter.Saturation.Loop
import Refuter.Text.Lower

/-! # Loops by name

The engine, the settings and the command line choose a loop by its name,
whatever the case of its letters.
-/

namespace Refuter

/-- Something offered as a loop. -/
inductive Candidate where
  /-- A strategy. -/
  | strategy (s : Strategy)
  /-- Something else, as a message shows it. -/
  | other (shown : String)
  deriving Repr, DecidableEq

/-- Strategies by lower-case name, in order of registration. -/
structure Registry where
  /-- The names with their strategies. -/
  entries : Members Strategy := []
  deriving Repr, DecidableEq, Inhabited

namespace Registry

/-- The loops that are always there. -/
def standard : Registry :=
  ⟨[("basic", .incremental), ("exhaustive", .exhaustive)]⟩

/-- The names in order of registration. -/
def names (registry : Registry) : List String :=
  registry.entries.map (·.1)

/-- Registers a strategy under a name. -/
def register (registry : Registry) (name : String) : Candidate → Except Error Registry
  | .strategy s => .ok ⟨registry.entries.set (Text.lower name) s⟩
  | .other shown => .error (.notALoop shown)

/-- Registers several candidates in order. -/
def ofCandidates (candidates : List (String × Candidate)) : Except Error Registry :=
  candidates.foldlM (fun registry (name, candidate) => registry.register name candidate) {}

/-- Is a name registered? -/
def contains (registry : Registry) (name : String) : Bool :=
  (registry.entries.get? (Text.lower name)).isSome

/-- Makes the loop of a name, with an optional cap. The name is looked up
    before the cap is checked. -/
def create (registry : Registry) (name : String) (cap : Option Int) : Except Error Loop :=
  match registry.entries.get? (Text.lower name) with
  | none => .error (.unknownLoop name registry.names)
  | some strategy => Loop.make strategy cap

/-- Makes the loop that a value names. -/
def createNamed (registry : Registry) (name : Json) (cap : Option Int) : Except Error Loop :=
  match name with
  | .str s => registry.create s cap
  | _ => .error .loopNotNamed

end Registry

end Refuter
