import Refuter.File.Path
import Refuter.Trace.Record

/-! # Trace files

A trace file collects the records of one search after another. A terminal
record closes a *run*. Closing the file closes a run that is still open, without
an outcome.
-/

namespace Refuter

/-- The records of one search. -/
structure TraceRun where
  /-- When the search ended; absent when the file was closed before. -/
  finished : Option String
  /-- The terminal record's kind; absent when there was none. -/
  outcome : Option String
  /-- The records in order. -/
  records : List Record
  deriving Repr, DecidableEq

/-- A trace file in the making. -/
structure TraceFile where
  /-- When the file was begun. -/
  generated : String
  /-- The title of the trace. -/
  name : String
  /-- The runs that are closed. -/
  runs : List TraceRun := []
  /-- The records of the run that is open. -/
  pending : List Record := []
  deriving Repr, DecidableEq

/-- A run as it is written. -/
def TraceRun.toJson (run : TraceRun) : Json :=
  .obj [("finished", .ofOption .str run.finished), ("outcome", .ofOption .str run.outcome),
    ("records", .arr (run.records.map Record.toJson))]

namespace TraceFile

/-- Begins a trace file. Without a name, or with an empty one, the stem of its
    path is the title. -/
def begin (now : String) (name : Option String) (path : String) : TraceFile :=
  { generated := now, name := (name.filter (!·.isEmpty)).getD (Path.stem path) }

/-- The closed runs as they are written. -/
def toJson (file : TraceFile) : Json :=
  .obj [("generated", .str file.generated), ("name", .str file.name),
    ("runs", .arr (file.runs.map TraceRun.toJson))]

/-- Takes in a record at the time `now`. -/
def record (file : TraceFile) (now : String) (r : Record) : TraceFile :=
  let records := file.pending ++ [r]
  if r.isTerminal then
    { file with
      runs := file.runs ++ [{ finished := some now, outcome := some r.kind, records }]
      pending := [] }
  else { file with pending := records }

/-- Closes the file. -/
def close (file : TraceFile) : TraceFile :=
  if file.pending.isEmpty then file
  else
    { file with
      runs := file.runs ++ [{ finished := none, outcome := none, records := file.pending }]
      pending := [] }

end TraceFile

end Refuter
