import Refuter.Error
import Refuter.File.Lookup
import Refuter.File.Path
import Refuter.Settings.Placeholder
import Refuter.Settings.Whole

/-! # Settings

Settings are a tree of named values. A document is laid over the defaults,
its placeholders are filled in from the environment, and then two values are
checked: the cap on derived clauses, which becomes a whole number or absent,
and the path of the trace, which is absent if it has no content.

**Merging.** A mapping laid over a mapping changes the members it names and
leaves the others, at every depth; anything else replaces what was there.
-/

namespace Refuter

/-- A tree of named values. -/
structure Settings where
  /-- The members at the top. -/
  tree : Members Json
  deriving Repr

namespace Settings

/-- The settings without any document. -/
def defaults : Settings :=
  ⟨[("prover", .obj [("loop", .str "basic"), ("max_steps", .null)]),
    ("trace", .obj [("path", .null)])]⟩

/-! ### Merging and looking up -/

mutual

/-- Lays members over others. -/
def mergeMembers (base : Members Json) : List (String × Json) → Members Json
  | [] => base
  | (name, v) :: rest => mergeMembers (base.set name (mergeValue (base.get? name) v)) rest

/-- Lays a value over an old one. -/
def mergeValue (old : Option Json) : Json → Json
  | .obj updates =>
    match old with
    | some (.obj members) => .obj (mergeMembers members updates)
    | _ => .obj updates
  | .arr items => .arr items
  | .scalar s => .scalar s

end

/-- Lays updates over the settings. -/
def update (settings : Settings) (updates : Members Json) : Settings :=
  ⟨mergeMembers settings.tree updates⟩

/-- The parts of a dotted key. -/
def keyParts (key : String) : List String :=
  (Text.splitAt '.' key.toList).map String.ofList

/-- Follows names down a value. -/
def walk (value : Json) : List String → Option Json
  | [] => some value
  | name :: rest =>
    match value with
    | .obj members => (Members.get? members name).bind (walk · rest)
    | _ => none

/-- The value under a dotted key. -/
def get? (settings : Settings) (key : String) : Option Json :=
  walk (.obj settings.tree) (keyParts key)

/-- The value under a dotted key, or a default. -/
def get (settings : Settings) (key : String) (default : Json) : Json :=
  (settings.get? key).getD default

/-! ### Checking -/

/-- Is a value absent, false, zero or without content? -/
def isVoid : Json → Bool
  | .scalar s => s.isVoid
  | .arr items => items.isEmpty
  | .obj members => members.isEmpty

/-- The members of a document: one without content has none, and any other
    value that is no mapping is refused. -/
def ofDocument (path : String) (document : Json) : Except Error (Members Json) :=
  if isVoid document then .ok []
  else match document with
    | .obj members => .ok members
    | other => .error (.notMapping path other.kindName)

/-- The whole number that a value stands for; of a decimal number it is what
    stands before the point. -/
def wholeOf : Json → Option Int
  | .int n => some n
  | .bool b => some (if b then 1 else 0)
  | .decimal x => x.truncate?
  | .str s => readWhole s
  | _ => none

/-- Is a value beyond all whole numbers? -/
def isInfinite : Json → Bool
  | .decimal (.infinite _) => true
  | _ => false

/-- Does a value say that there is no cap? -/
def saysNone : Json → Bool
  | .null => true
  | .str s => String.ofList (Text.trim s.toList) ∈ ["", "null", "None"]
  | _ => false

/-- What is wrong with a cap below one. A number of too many digits cannot even be
    told. -/
def capFault (n : Int) : Error :=
  if Scalar.maxDigits < (natText n.natAbs).length then .unwritable else .stepsNotPositive n

/-- The cap that a value stands for. -/
def capOf (value : Json) : Except Error (Option Int) :=
  if saysNone value then .ok none
  else if isInfinite value then .error .stepsInfinite
  else match wholeOf value with
    | none => .error (.stepsNotInteger value)
    | some n => if n < 1 then .error (capFault n) else .ok (some n)

/-- A section, which must be a mapping. -/
def sectionOf (settings : Settings) (name : String) : Except Error (Members Json) :=
  match settings.tree.get? name with
  | some (.obj members) => .ok members
  | _ => .error .sectionNotMapping

/-- Checks the cap and the path of the trace. -/
def validate (settings : Settings) : Except Error Settings := do
  let prover ← settings.sectionOf "prover"
  let cap ← capOf ((prover.get? "max_steps").getD .null)
  let prover := prover.set "max_steps" (.ofOption .int cap)
  let trace ← settings.sectionOf "trace"
  let path := (trace.get? "path").getD .null
  let trace := trace.set "path" (if isVoid path then .null else path)
  return ⟨(settings.tree.set "prover" (.obj prover)).set "trace" (.obj trace)⟩

/-- The settings that a document makes, given the environment. -/
def make (env : Environment) (path : String) (document : Json) : Except Error Settings := do
  let members ← ofDocument path document
  validate ⟨expandMembers env (defaults.update members).tree⟩

/-! ### Finding a document -/

/-- Where a document is looked for when none is named, below the working
    directory and the home directory; the first found counts. -/
def searchPaths (directory home : String) : List String :=
  [Path.normal (directory ++ "/configs/default.yaml"),
    Path.normal (home ++ "/.resolvent/config.yaml")]

/-- What is found under a path: a document, unless it cannot be read. -/
abbrev DocumentLookup := Lookup (Except Error Json)

/-- The first of some paths under which there is anything. A path for which it cannot be
    told ends the search. -/
def firstFound {m : Type → Type} [Monad m] (lookup : String → m DocumentLookup) :
    List String → m (Except Error (Option String))
  | [] => pure (.ok none)
  | path :: rest => do
    let found ← lookup path
    match found.fault? path with
    | some e => return .error e
    | none => if found.found then return .ok (some path) else firstFound lookup rest

/-- Loads settings from the named document, or else from the first one found,
    or else the defaults. Tells which document it was. -/
def load {m : Type → Type} [Monad m] (lookup : String → m DocumentLookup)
    (directory home : String) (env : Environment) (path : Option String) :
    m (Except Error (Option String × Settings)) := do
  let chosen ← match path.filter (!·.isEmpty) with
    | some p => pure (.ok (some p))
    | none => firstFound lookup (searchPaths directory home)
  match chosen with
  | .error e => return .error e
  | .ok none => return (make env "" .null).map fun s => (none, s)
  | .ok (some p) =>
    let found ← lookup p
    return do
      let settings ← make env p (← (← found.read p))
      return (some p, settings)

/-! ### What the prover asks for -/

/-- The name of the loop to use, which may be any value. -/
def loop (settings : Settings) : Json :=
  settings.get "prover.loop" (.str "basic")

/-- The cap on derived clauses. -/
def cap (settings : Settings) : Option Int :=
  match settings.get "prover.max_steps" .null with
  | .int n => some n
  | _ => none

/-- The path of the trace, which may be any value; one without content is none. -/
def tracePath (settings : Settings) : Option Json :=
  let path := settings.get "trace.path" .null
  if isVoid path then none else some path

end Settings

end Refuter
