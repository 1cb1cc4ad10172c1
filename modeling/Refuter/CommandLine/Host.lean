import Refuter.Engine
import Refuter.File.Folder
import Refuter.Settings.Placeholder

/-! # Hosts

A run of the command line reads and writes files, prints, and looks at the
clock. What it can do there is a *host*. A host is a record of actions in a
monad, so the same run happens on the machine, or on a `Desk`: a folder held
as a value, on which everything a run does can be read off afterwards.
-/

namespace Refuter.CommandLine

/-- What a run can do outside. -/
structure Host (m : Type → Type) where
  /-- The environment. -/
  environment : Settings.Environment
  /-- The working directory. -/
  directory : String
  /-- The home directory. -/
  home : String
  /-- Looks under a path. -/
  look : String → m (Lookup String)
  /-- Makes a directory and those above it, unless they are there. -/
  makeDirectory : String → m (Except Error Unit)
  /-- Writes a file: its path, then its content. -/
  write : String → String → m (Except Error Unit)
  /-- Reads the text of a document of settings. -/
  document : String → Except Error Json
  /-- Prints a line. -/
  out : String → m Unit
  /-- Prints a line about what goes wrong or on. -/
  err : String → m Unit
  /-- Shows a status below those lines, or takes it away. It stays without a
      line break, so the next such line is printed behind it. -/
  status : Option String → m Unit
  /-- The time as a text. -/
  now : m String
  /-- Answers a query and tells the seconds it took. -/
  timed : (Unit → Answer) → m (Answer × String)

/-! ### Running on a desk -/

/-- A folder, and what was printed. -/
structure Desk where
  /-- The files. -/
  folder : Folder
  /-- The lines printed. -/
  out : List String := []
  /-- The lines printed about what goes wrong or on. -/
  err : List String := []
  /-- The status shown below those lines. -/
  status : String := ""
  deriving Repr, DecidableEq, Inhabited

namespace Desk

/-- Changes the folder, unless the change is refused. -/
def change (f : Folder → Except Error Folder) : StateM Desk (Except Error Unit) := do
  let desk ← get
  match f desk.folder with
  | .ok folder =>
    set { desk with folder }
    return .ok ()
  | .error e => return .error e

/-- The host that works on a desk and reads documents of settings with `load`. The clock
    stands still: `time` is the time, and every query takes as long. -/
def host (load : String → Except Error Json) (environment : Settings.Environment)
    (home time : String) : Host (StateM Desk) where
  environment := environment
  directory := "."
  home := home
  look path := do return (← get).folder.look path
  makeDirectory path := change (·.makeDirectory path)
  write path content := change (·.write path content)
  document := load
  out line := modify fun desk => { desk with out := desk.out ++ [line] }
  err line := modify fun desk =>
    { desk with err := desk.err ++ [desk.status ++ line], status := "" }
  status text := modify fun desk => { desk with status := text.getD "" }
  now := return time
  timed query := return (query (), time)

/-- Lines as a text. -/
def text (lines : List String) : String :=
  String.join (lines.map (· ++ "\n"))

/-- What is left to see of a line: a carriage return starts it again. -/
def visible (line : List Char) : List Char :=
  (line.reverse.takeWhile (· ≠ '\r')).reverse

/-- What can be seen of what was printed about what goes wrong or on, with the
    status at the end. -/
def errText (desk : Desk) : String :=
  String.ofList (['\n'].intercalate
    ((Text.splitAt '\n' (text desk.err ++ desk.status).toList).map visible))

end Desk

end Refuter.CommandLine
