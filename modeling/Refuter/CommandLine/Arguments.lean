import Refuter.Saturation.Registry
import Refuter.Settings.Whole

/-! # Arguments of the command line

One argument names the file with the problem; the others are options. Reading
goes in two steps.

**Sorting.** Each argument is sorted on its own: it is *plain*, an option with
or without a value attached, or unknown. The long form of an option may be cut
short as long as one option is left that it can mean. What looks like a
negative number, or holds a space, is plain; behind `--` everything is.

**Taking.** The sorted arguments are taken from left to right. An option that
needs a value takes the one attached, or else the plain argument behind it.
The first plain argument left over names the problem; all further ones, and
the unknown ones, are refused together at the end.
-/

namespace Refuter.CommandLine

/-! ### Options -/

/-- The options. -/
inductive Switch where
  | help
  | query
  | loop
  | maxSteps
  | config
  | traceFile
  | json
  | showTrace
  | verbose
  deriving Repr, DecidableEq, Inhabited

namespace Switch

/-- All options. -/
def all : List Switch :=
  [help, query, loop, maxSteps, config, traceFile, json, showTrace, verbose]

/-- The long form of an option. -/
def long : Switch → String
  | help => "--help"
  | query => "--query"
  | loop => "--loop"
  | maxSteps => "--max-steps"
  | config => "--config"
  | traceFile => "--trace-file"
  | json => "--json"
  | showTrace => "--show-trace"
  | verbose => "--verbose"

/-- The forms of an option as messages name them. -/
def shown : Switch → String
  | help => "-h/--help"
  | other => other.long

/-- Does an option need a value? -/
def takesValue : Switch → Bool
  | help | showTrace | verbose => false
  | query | loop | maxSteps | config | traceFile | json => true

/-- What an option is for. -/
def purpose : Switch → String
  | help => "show this help and exit"
  | query => "Query to prove (repeatable, overrides the file's ? lines)"
  | loop => "Saturation loop (default from config)"
  | maxSteps => "Derived-clause limit per query"
  | config => "YAML configuration file"
  | traceFile => "Write the step records to a JSON file"
  | json => "Export proofs to a JSON file"
  | showTrace => "Print the refutation of proved queries"
  | verbose => "Show debug logging"

/-- The options whose long form starts with a text. -/
def startingWith (text : List Char) : List Switch :=
  all.filter fun s => text.isPrefixOf s.long.toList

end Switch

/-- The lines that help shows. -/
def helpLines : List String :=
  ["Prove queries by resolution refutation", "", "problem: Knowledge base file (one sentence per line)"]
    ++ Switch.all.map fun s => s.shown ++ ": " ++ s.purpose

/-! ### What can be wrong -/

/-- Why arguments are refused. -/
inductive UsageError where
  /-- A shortened option that can mean several. -/
  | ambiguous (text : String) (options : List Switch)
  /-- An option lacks its value. -/
  | valueMissing (option : Switch)
  /-- An option that needs no value has one attached. -/
  | valueIgnored (option : Switch) (value : String)
  /-- A cap that is no whole number. -/
  | capNotWhole (value : String)
  /-- A loop of another name than the known ones. -/
  | loopUnknown (value : String) (known : List String)
  /-- No argument names the problem. -/
  | problemMissing
  /-- Arguments that nothing takes. -/
  | unrecognized (arguments : List String)
  /-- Neither the problem nor the arguments hold a query. -/
  | noQueries
  deriving Repr, DecidableEq

namespace UsageError

/-- The words for an error that concerns one option. -/
def about (option : Switch) (reason : String) : String :=
  "argument " ++ option.shown ++ ": " ++ reason

/-- The words for a refusal. -/
def message : UsageError → String
  | ambiguous text options =>
    "ambiguous option: " ++ text ++ " could match " ++ ", ".intercalate (options.map Switch.long)
  | valueMissing option => about option "expected one argument"
  | valueIgnored option value => about option ("ignored explicit argument " ++ Text.quoted value)
  | capNotWhole value => about .maxSteps ("invalid int value: " ++ Text.quoted value)
  | loopUnknown value known =>
    about .loop ("invalid choice: " ++ Text.quoted value ++ " (choose from "
      ++ ", ".intercalate (known.map Text.quoted) ++ ")")
  | problemMissing => "the following arguments are required: problem"
  | unrecognized arguments => "unrecognized arguments: " ++ " ".intercalate arguments
  | noQueries => "no queries: add '? query' lines to the file or pass --query"

/-- The line that tells of a refusal. -/
def line (e : UsageError) : String :=
  "resolvent: error: " ++ e.message

end UsageError

/-! ### Sorting -/

/-- A sorted argument. -/
inductive Argument where
  /-- A text that is no option. -/
  | plain (text : String)
  /-- The mark `--`, behind which everything is plain. -/
  | separator
  /-- An option, with the value attached to it. -/
  | option (option : Switch) (value : Option String)
  /-- It looks like an option and is none. -/
  | unknown (text : String)
  deriving Repr, DecidableEq

/-- Does a text look like a negative number? A line end behind it does not
    count. -/
def isNegativeNumber (text : List Char) : Bool :=
  let isDigit := fun c => (Text.digitValue? c).isSome
  let body := if text.getLast? = some '\n' then text.dropLast else text
  match body with
  | '-' :: digits =>
    match digits.dropWhile isDigit with
    | [] => !digits.isEmpty
    | '.' :: fraction => !fraction.isEmpty && fraction.all isDigit
    | _ => false
  | _ => false

/-- A text that starts like an option and is none of them. -/
def sortOther (text : String) : Argument :=
  if isNegativeNumber text.toList || text.toList.contains ' ' then .plain text else .unknown text

/-- The short form of help with letters behind it: those that repeat it count
    for nothing, the others are a value attached. -/
def sortHelp (letters : List Char) : Argument :=
  match letters.dropWhile (· = 'h') with
  | [] => .option .help none
  | rest => .option .help (some (String.ofList rest))

/-- Sorts one argument. -/
def sortOne (text : String) : Except UsageError Argument :=
  match text.toList with
  | '-' :: '-' :: body =>
    let name := '-' :: '-' :: body.takeWhile (· ≠ '=')
    let value := match body.dropWhile (· ≠ '=') with
      | [] => none
      | _ :: rest => some (String.ofList rest)
    match Switch.all.find? fun s => s.long.toList = name with
    | some s => .ok (.option s value)
    | none =>
      match Switch.startingWith name with
      | [] => .ok (sortOther text)
      | [s] => .ok (.option s value)
      | several => .error (.ambiguous text several)
  | ['-', 'h', '='] => .ok (.option .help (some ""))
  | '-' :: 'h' :: '=' :: letters => .ok (sortHelp letters)
  | '-' :: 'h' :: letters => .ok (sortHelp letters)
  | ['-'] => .ok (.plain text)
  | '-' :: _ => .ok (sortOther text)
  | _ => .ok (.plain text)

/-- Sorts all arguments. -/
def sortAll : List String → Except UsageError (List Argument)
  | [] => .ok []
  | text :: rest =>
    if text = "--" then .ok (.separator :: rest.map .plain)
    else do
      let first ← sortOne text
      return first :: (← sortAll rest)

/-! ### Taking -/

/-- What the options ask for. A value that is the mark `--` alone is an empty one:
    it counts as absent, except for queries and the cap, which are asked for all
    the same. -/
structure Choices where
  /-- The queries, in order; an empty one stays in its place. -/
  queries : List (Option String) := []
  /-- The name of the loop. -/
  loop : Option String := none
  /-- The cap on derived clauses, which may be empty. -/
  cap : Option (Option Int) := none
  /-- The path of the settings. -/
  config : Option String := none
  /-- The path of the trace. -/
  traceFile : Option String := none
  /-- The path for the derivations. -/
  json : Option String := none
  /-- Are refutations to be shown? -/
  showTrace : Bool := false
  /-- Is the search to be followed? -/
  verbose : Bool := false
  deriving Repr, DecidableEq, Inhabited

namespace Choices

/-- Takes a value for an option that needs one. -/
def take (c : Choices) (option : Switch) (text : String) : Except UsageError Choices :=
  let value := if text = "--" then none else some text
  match option, value with
  | .query, _ => .ok { c with queries := c.queries ++ [value] }
  | .loop, some name =>
    if name ∈ Registry.standard.names then .ok { c with loop := value }
    else .error (.loopUnknown name Registry.standard.names)
  | .loop, none => .ok { c with loop := none }
  | .maxSteps, some number =>
    match Settings.readWhole number with
    | some n => .ok { c with cap := some (some n) }
    | none => .error (.capNotWhole number)
  | .maxSteps, none => .ok { c with cap := some none }
  | .config, _ => .ok { c with config := value }
  | .traceFile, _ => .ok { c with traceFile := value }
  | .json, _ => .ok { c with json := value }
  | .help, _ | .showTrace, _ | .verbose, _ => .ok c

/-- Sets an option that needs no value. -/
def turnOn (c : Choices) : Switch → Choices
  | .showTrace => { c with showTrace := true }
  | .verbose => { c with verbose := true }
  | _ => c

end Choices

/-- Arguments taken so far. -/
structure Taken where
  /-- What the options ask for. -/
  choices : Choices := {}
  /-- The path of the problem. -/
  problem : Option String := none
  /-- Arguments that nothing takes. -/
  extras : List String := []
  deriving Repr, DecidableEq, Inhabited

/-- Why reading the arguments ends early. -/
inductive Interruption where
  /-- Help is asked for. -/
  | help
  /-- The arguments are refused. -/
  | refused (error : UsageError)
  deriving Repr, DecidableEq

namespace Taken

/-- Puts aside an argument that nothing takes. -/
def putAside (t : Taken) (text : String) : Taken :=
  { t with extras := t.extras ++ [text] }

/-- Takes a plain argument: the first one names the problem. -/
def takePlain (t : Taken) (text : String) : Taken :=
  match t.problem with
  | none => { t with problem := some text }
  | some _ => t.putAside text

/-- Takes a value for an option that needs one. -/
def takeValue (t : Taken) (option : Switch) (text : String) : Except Interruption Taken :=
  match t.choices.take option text with
  | .ok choices => .ok { t with choices }
  | .error e => .error (.refused e)

/-- Takes sorted arguments from left to right. The mark `--` goes with the
    problem next to it, and otherwise is put aside. -/
def takeAll (t : Taken) : List Argument → Except Interruption Taken
  | [] => .ok t
  | .unknown text :: rest => takeAll (t.putAside text) rest
  | .plain text :: .separator :: rest =>
    if t.problem.isNone then takeAll (t.takePlain text) rest
    else takeAll ((t.putAside text).putAside "--") rest
  | .plain text :: rest => takeAll (t.takePlain text) rest
  | .separator :: .plain text :: rest =>
    if t.problem.isNone then takeAll (t.takePlain text) rest
    else takeAll ((t.putAside "--").putAside text) rest
  | .separator :: rest => takeAll (t.putAside "--") rest
  | .option .help none :: _ => .error .help
  | .option s value :: rest =>
    match s.takesValue, value, rest with
    | true, some text, rest => do takeAll (← t.takeValue s text) rest
    | true, none, .plain text :: rest => do takeAll (← t.takeValue s text) rest
    | true, none, _ => .error (.refused (.valueMissing s))
    | false, some text, _ => .error (.refused (.valueIgnored s text))
    | false, none, rest => takeAll { t with choices := t.choices.turnOn s } rest

end Taken

/-- The arguments of a run. -/
structure Arguments extends Choices where
  /-- The path of the problem. -/
  problem : String
  deriving Repr, DecidableEq, Inhabited

/-- Reads the arguments. A missing problem counts more than arguments that
    nothing takes. -/
def Arguments.read (texts : List String) : Except Interruption Arguments := do
  let sorted ← match sortAll texts with
    | .ok sorted => pure sorted
    | .error e => throw (.refused e)
  let taken ← Taken.takeAll {} sorted
  match taken.problem, taken.extras with
  | none, _ => throw (.refused .problemMissing)
  | some problem, [] => return { taken.choices with problem }
  | some _, extras => throw (.refused (.unrecognized extras))

end Refuter.CommandLine
