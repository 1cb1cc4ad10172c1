import Refuter.CommandLine.Arguments
import Refuter.CommandLine.Host
import Refuter.CommandLine.Report
import Refuter.Exchange.Encode
import Refuter.File.KnowledgeBase
import Refuter.Settings.Basic
import Refuter.Trace.Open

/-! # A run of the command line

A run reads the arguments, the settings and the problem, builds an engine, and
answers one query after the other. It ends with an exit code:

* `0`: all queries were answered, whatever the answers;
* `1`: the problem is missing, or the settings or the loop are refused;
* `2`: the arguments, a sentence or a query is refused. A refused query does
  not stop the others.

Everything else that goes wrong *escapes*: the run ends with the error itself.
-/

namespace Refuter.CommandLine

/-- How a run ends. -/
inductive Exit where
  /-- With an exit code. -/
  | code (value : Nat)
  /-- With a refusal of the arguments. -/
  | usage (error : UsageError)
  /-- With an error that nothing caught. -/
  | escaped (error : Error)

variable {m : Type → Type} [Monad m]

/-- A part of a run, which may end it. -/
abbrev Part (m : Type → Type) (α : Type) := ExceptT Exit m α

/-! ### Reading -/

/-- Prints a line about what went wrong and ends the run. -/
def fail {α : Type} (host : Host m) (code : Nat) (line : String) : Part m α := do
  host.err line
  throw (.code code)

/-- Ends the run with an error. -/
def orEscape {α : Type} (result : Except Error α) : Part m α :=
  match result with
  | .ok a => pure a
  | .error e => throw (.escaped e)

/-- Prints a line of the log, if it is asked for. -/
def log (host : Host m) (verbose : Bool) (line : String) : m Unit :=
  if verbose then host.err line else pure ()

/-- Reads the arguments. -/
def readArguments (host : Host m) (texts : List String) : Part m Arguments := do
  match Arguments.read texts with
  | .ok arguments => return arguments
  | .error .help =>
    (helpLines.forM host.out : m Unit)
    throw (.code 0)
  | .error (.refused e) => throw (.usage e)

/-- Is an error about settings reported? The others escape. -/
def isSettingsError : Error → Bool
  | .notMapping .. | .stepsNotInteger .. | .stepsNotPositive .. | .oversized _ | .fileMissing _
  | .isDirectory _ | .notDirectory _ | .nullInPath | .nameTooLong _ | .permissionDenied _
  | .noDigits _ | .unwritable | .beyondCharacters | .unencodable => true
  | _ => false

/-- Reads the settings: the named ones, or those that are found. -/
def readSettings (host : Host m) (config : Option String) : Part m Settings := do
  let lookup := fun path => return (← host.look path).map host.document
  match ← Settings.load lookup host.directory host.home host.environment
      (config.map Path.normal) with
  | .ok (_, settings) => return settings
  | .error e =>
    if isSettingsError e then fail host 1 ("Error reading configuration: " ++ e.message)
    else throw (.escaped e)

/-! ### Queries -/

/-- A run on its way through the queries. -/
structure Session where
  /-- The engine. -/
  engine : Engine
  /-- The trace, if there is one. -/
  trace : Option OpenTrace
  /-- The bar shown, if there are several queries. -/
  bar : Option String := none
  /-- The derivations so far. -/
  proofs : List Derivation := []
  /-- The exit code so far. -/
  code : Nat := 0
  /-- What stops the run, if anything does. -/
  stopped : Option Error := none

/-- A query as a value; an empty one is no text. -/
def queryValue : Option String → Json
  | some query => .str query
  | none => .arr []

/-- Prints without the bar, which is shown again afterwards. The lines of the log
    do not care for the bar and go behind it. -/
def besideBar (host : Host m) (session : Session) (print : m Unit) : m Unit := do
  host.status none
  print
  host.status session.bar

/-- Reports a derivation: first the search, then the trace is written, then
    the result is told. -/
def report (host : Host m) (choices : Choices) (session : Session) (d : Derivation)
    (events : List QueryEvent) (seconds : String) : m Session := do
  (events.filter (!isLate ·)).forM fun e => log host choices.verbose (eventLine e)
  let (trace, stored) ← match session.trace with
    | some trace => do
      let (trace, stored) ← trace.recordAll host.write (← host.now) d.trace
      pure (some trace, stored)
    | none => pure (none, .ok ())
  match stored with
  | .error e => return { session with trace, stopped := some e }
  | .ok () =>
    (events.filter isLate).forM fun e => log host choices.verbose (eventLine e)
    besideBar host session (host.out (resultLine d seconds))
    if choices.showTrace && d.outcome == some .proved then
      (refutationLines d).forM fun line => besideBar host session (host.out line)
    return { session with trace, proofs := session.proofs ++ [d] }

/-- Answers one query. -/
def answerQuery (host : Host m) (choices : Choices) (session : Session) (query : Option String) :
    m Session := do
  let (answer, seconds) ← host.timed fun _ => session.engine.proveValue (queryValue query)
  let session := { session with engine := answer.engine }
  match answer.result with
  | .ok d => report host choices session d answer.events seconds
  | .error (.malformed sentence fault) =>
    besideBar host session
      (host.err ("Parse error: " ++ (Error.malformed sentence fault).message))
    return { session with code := 2 }
  | .error e => return { session with stopped := some e }

/-- Answers queries until one stops the run. -/
def answerAll (host : Host m) (choices : Choices) (session : Session) :
    List (Option String) → m Session
  | [] => pure session
  | query :: rest => do
    let session ← answerQuery host choices session query
    match session.stopped with
    | some _ => return session
    | none => answerAll host choices session rest

/-- Answers queries; if there are several, the bar is shown meanwhile. -/
def answerQueries (host : Host m) (choices : Choices) (session : Session)
    (queries : List (Option String)) : m Session := do
  let bar := if queries.length < 2 then none else some (progressBar queries.length)
  host.status bar
  let session ← answerAll host choices { session with bar } queries
  host.status none
  return session

/-! ### The run -/

/-- Makes the loop that the options and the settings ask for. Its name is looked up
    before the cap is. -/
def chooseLoop (choices : Choices) (settings : Settings) : Except Error Loop := do
  let name := match choices.loop with
    | some name => .str name
    | none => settings.loop
  let loop ← Registry.standard.createNamed name none
  match choices.cap with
  | none => loop.setCap settings.cap
  | some (some n) => loop.setCap (some n)
  | some none => throw (.capNotNumber (Json.arr []).kindName)

/-- Is an error about the loop reported? The others escape. -/
def isLoopError : Error → Bool
  | .unknownLoop .. | .capNotPositive _ => true
  | _ => false

/-- Builds the engine for a problem. -/
def buildEngine (host : Host m) (choices : Choices) (settings : Settings) (sentences : List String) :
    Part m Engine := do
  match Build.sentences sentences {} with
  | (.error e, _) => fail host 2 ("Parse error: " ++ e.message)
  | (.ok clauses, builder) =>
    (log host choices.verbose (builtLine clauses.length) : m Unit)
    match chooseLoop choices settings with
    | .error e =>
      if isLoopError e then fail host 1 ("Error: " ++ e.message) else throw (.escaped e)
    | .ok loop =>
      (log host choices.verbose (engineLine clauses.length) : m Unit)
      return Engine.ofSentences clauses loop builder

/-- Closes the trace. This is done even if the run was stopped. -/
def closeTrace (host : Host m) (trace : Option OpenTrace) : Part m Unit := do
  match trace with
  | none => return ()
  | some trace =>
    let (_, stored) ← (trace.close host.write : m (OpenTrace × Except Error Unit))
    orEscape stored

/-- Writes the derivations, if that is asked for. -/
def writeProofs (host : Host m) (json : Option String) (proofs : List Derivation) : Part m Unit := do
  match json with
  | none => return ()
  | some path =>
    let path := Path.normal path
    orEscape (← ((Json.arr (proofs.map Derivation.toJson)).writeTo host.write path :
      m (Except Error Unit)))
    host.out ("Proofs written to " ++ path)

/-- The path that a value names. -/
def pathOf : Json → Except Error String
  | .str path => .ok path
  | other => .error (.notAPath other.kindName)

/-- Opens the trace under the path that is asked for, if one is. -/
def openTrace (host : Host m) (problem : String) (asked : Option Json) :
    Part m (Option OpenTrace) := do
  match asked with
  | none => return none
  | some value =>
    let path ← orEscape (pathOf value)
    let now ← host.now
    let begun ← (OpenTrace.begin host.makeDirectory now (some (Path.stem problem)) path :
      m (Except Error OpenTrace))
    return some (← orEscape begun)

/-- Looks for the problem. -/
def findProblem (host : Host m) (problem : String) : Part m (Lookup String) := do
  let found ← host.look problem
  match found.fault? problem with
  | some e => throw (.escaped e)
  | none =>
    if found.found then return found else fail host 1 ("Error: File not found: " ++ problem)

/-- Proves queries from sentences and returns the exit code. -/
def proveAll (host : Host m) (arguments : Arguments) (settings : Settings)
    (sentences : List String) (queries : List (Option String)) : Part m Nat := do
  let problem := Path.normal arguments.problem
  let trace ← openTrace host problem (arguments.traceFile.map Json.str <|> settings.tracePath)
  let engine ← buildEngine host arguments.toChoices settings sentences
  host.out (loadedLine engine.base.length problem)
  let session ← (answerQueries host arguments.toChoices { engine, trace } queries : m Session)
  closeTrace host session.trace
  match session.stopped with
  | some e => throw (.escaped e)
  | none =>
    writeProofs host arguments.json session.proofs
    return session.code

/-- A run, up to its exit code. -/
def proceed (host : Host m) (texts : List String) : Part m Nat := do
  let arguments ← readArguments host texts
  let problem := Path.normal arguments.problem
  let found ← findProblem host problem
  let settings ← readSettings host arguments.config
  let kb := KnowledgeBase.ofFile (← orEscape (found.read problem))
  let queries := if arguments.queries.isEmpty then kb.queries.map some else arguments.queries
  if queries.isEmpty then throw (.usage .noQueries)
  else proveAll host arguments settings kb.sentences queries

/-- A run. -/
def run (host : Host m) (texts : List String) : m Exit := do
  match ← (proceed host texts).run with
  | .ok code => return .code code
  | .error exit => return exit

end Refuter.CommandLine
