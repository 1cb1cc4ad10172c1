import Refuter.CommandLine.Program
import Refuter.Settings.Document
import Std.Time.Format

/-! # The program

The command line on the machine: files, streams, environment and clock. What the
machine holds are characters; they become texts on the way in and characters
again on the way out. -/

namespace Refuter.Machine

open CommandLine

/-- The error code of the system for a directory in place of a file. -/
def directoryCode : UInt32 := 21

/-- Does an error code of the system say that a name is too long? Looking at a file
    tells it with the other sign than writing one. -/
def saysLongName (code : UInt32) : Bool :=
  code = 36 || code = -36

/-- Looks under a path. -/
def look (path : String) : IO (Lookup String) := do
  if !Path.isUsable path then return .unusable
  match ← (IO.FS.readFile (Text.printed path)).toBaseIO with
  | .ok text => return .file (Text.ofPlain text)
  | .error (.noFileOrDirectory ..) => return .missing
  | .error (.permissionDenied ..) =>
    -- what can be told apart from other places is there, though it may not be read
    match ← (IO.FS.realPath (Text.printed path)).toBaseIO with
    | .ok _ => return .unreadable
    | .error _ => return .denied
  | .error (.inappropriateType _ code _) =>
    return if code = directoryCode then .directory else .blocked
  | .error (.invalidArgument file code details) =>
    if saysLongName code then return .tooLong else throw (.invalidArgument file code details)
  | .error e => throw e

/-- Does something with the file under a path. -/
def attempt (path : String) (action : IO Unit) : IO (Except Error Unit) := do
  if !Path.isUsable path then return .error (Lookup.refusal path)
  match ← action.toBaseIO with
  | .ok () => return .ok ()
  | .error (.noFileOrDirectory ..) => return .error (.fileMissing path)
  | .error (.alreadyExists ..) => return .error (.fileExists path)
  | .error (.permissionDenied ..) => return .error (.permissionDenied path)
  | .error (.inappropriateType _ code _) =>
    return .error (if code = directoryCode then .isDirectory path else .notDirectory path)
  | .error (.invalidArgument file code details) =>
    if saysLongName code then return .error (.nameTooLong path)
    else throw (.invalidArgument file code details)
  | .error e => throw e

/-- The environment, as the system lists it for a process. -/
def environment : IO Settings.Environment := do
  match ← look "/proc/self/environ" with
  | .file text =>
    return (Text.splitAt '\x00' text.toList).filterMap fun entry =>
      match entry.dropWhile (· ≠ '=') with
      | _ :: value => some (String.ofList (entry.takeWhile (· ≠ '=')), String.ofList value)
      | [] => none
  | _ => return []

/-- Milliseconds as seconds with three places. -/
def secondsText (milliseconds : Nat) : String :=
  let places := digits (milliseconds % 1000)
  digits (milliseconds / 1000) ++ "." ++ String.ofList (List.replicate (3 - places.length) '0') ++ places

/-- Draws a status over the one of `width` characters that was shown before, and
    returns its own width. -/
def drawStatus (err : IO.FS.Stream) (width : Nat) (status : Option String) : IO Nat := do
  let text := status.getD ""
  if width ≠ 0 ∨ !text.isEmpty then
    let blanks := String.ofList (List.replicate (width - text.length) ' ')
    err.putStr ("\r" ++ text ++ blanks ++ if text.isEmpty then "\r" else "")
  return text.length

/-- The machine as a host. -/
def host : IO (Host IO) := do
  let err ← IO.getStderr
  let out ← IO.getStdout
  let width ← IO.mkRef 0
  return {
    environment := ← environment
    directory := (← IO.currentDir).toString
    home := (← IO.getEnv "HOME").getD "."
    look
    makeDirectory := fun path => attempt path (IO.FS.createDirAll (Text.printed path))
    write := fun path text => do
      match storable text with
      | .error e => return .error e
      | .ok text => attempt path (IO.FS.writeFile (Text.printed path) (Text.printed text))
    document := Settings.Document.parse
    out := fun line => out.putStrLn (Text.printed line)
    err := fun line => err.putStrLn (Text.printed line)
    status := fun text => do width.set (← drawStatus err (← width.get) text)
    now := return (← Std.Time.PlainDateTime.now).format "uuuu-MM-dd'T'HH:mm:ss.SSSSSS"
    timed := fun query => do
      let start ← IO.monoMsNow
      let answer ← IO.lazyPure query
      let stop ← IO.monoMsNow
      return (answer, secondsText (stop - start)) }

end Refuter.Machine

/-- Runs the command line and tells its exit code. -/
def main (arguments : List String) : IO UInt32 := do
  let host ← Refuter.Machine.host
  match ← Refuter.CommandLine.run host (arguments.map Refuter.Text.ofPlain) with
  | .code n => return n.toUInt32
  | .usage e =>
    host.err e.line
    return 2
  | .escaped e =>
    host.err e.message
    return 1
