import Refuter.Json.Draft
import Refuter.Trace.File

/-! # Open traces

A trace file that is kept under a path. The directory of the path is made when
the trace begins, and the file is written anew behind every terminal record and at
the end, so that it can be read while further searches are still going. What writing
means is left to whoever keeps the files.
-/

namespace Refuter

/-- A trace file and its path. -/
structure OpenTrace where
  /-- Where the file is written. -/
  path : String
  /-- The file. -/
  file : TraceFile
  deriving Repr, DecidableEq

namespace OpenTrace

variable {m : Type → Type} [Monad m]

/-- Begins a trace under a path. -/
def begin (makeDirectory : String → m (Except Error Unit)) (now : String) (name : Option String)
    (path : String) : m (Except Error OpenTrace) := do
  let path := Path.normal path
  match ← makeDirectory (Path.parent path) with
  | .error e => return .error e
  | .ok () => return .ok { path, file := TraceFile.begin now name path }

/-- Writes the runs that are closed. -/
def store (write : String → String → m (Except Error Unit)) (trace : OpenTrace) :
    m (Except Error Unit) :=
  trace.file.toJson.writeTo write trace.path

/-- Takes in a record. -/
def record (write : String → String → m (Except Error Unit)) (now : String) (trace : OpenTrace)
    (r : Record) : m (OpenTrace × Except Error Unit) := do
  let trace := { trace with file := trace.file.record now r }
  if r.isTerminal then return (trace, ← trace.store write) else return (trace, .ok ())

/-- Takes in records until one cannot be written. -/
def recordAll (write : String → String → m (Except Error Unit)) (now : String)
    (trace : OpenTrace) : List Record → m (OpenTrace × Except Error Unit)
  | [] => pure (trace, .ok ())
  | r :: rest => do
    match ← trace.record write now r with
    | (trace, .ok ()) => recordAll write now trace rest
    | (trace, .error e) => return (trace, .error e)

/-- Closes the trace. -/
def close (write : String → String → m (Except Error Unit)) (trace : OpenTrace) :
    m (OpenTrace × Except Error Unit) := do
  let trace := { trace with file := trace.file.close }
  return (trace, ← trace.store write)

end OpenTrace

end Refuter
