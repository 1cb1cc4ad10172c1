import Refuter.Error
import Refuter.File.Path

/-! # Looking under a path

A path leads to a file, to a directory or to nothing. It also leads to nothing
when a file stands on the way where a directory is needed, or when there can be
no such path, be it for a character or for its length; reading tells these cases
apart. Where it leads may be kept secret, and so may the content of what is there.
-/

namespace Refuter

/-- What is found under a path. -/
inductive Lookup (α : Type) where
  /-- Nothing. -/
  | missing
  /-- Nothing, because a file stands on the way. -/
  | blocked
  /-- Nothing, because there can be no such path. -/
  | unusable
  /-- Nothing, because a name on the way is too long for any file. -/
  | tooLong
  /-- There is no telling, because a directory on the way may not be entered. -/
  | denied
  /-- A file or a directory that may not be read. -/
  | unreadable
  /-- A directory. -/
  | directory
  /-- A file. -/
  | file (content : α)
  deriving Repr, DecidableEq

namespace Lookup

variable {α β : Type}

/-- Is there anything? -/
def found : Lookup α → Bool
  | missing | blocked | unusable | tooLong | denied => false
  | unreadable | directory | file _ => true

/-- What goes wrong when it is only asked whether there is anything. -/
def fault? (path : String) : Lookup α → Option Error
  | tooLong => some (.nameTooLong path)
  | denied => some (.permissionDenied path)
  | missing | blocked | unusable | unreadable | directory | file _ => none

/-- Reads the content of a file in another way. -/
def map (f : α → β) : Lookup α → Lookup β
  | missing => .missing
  | blocked => .blocked
  | unusable => .unusable
  | tooLong => .tooLong
  | denied => .denied
  | unreadable => .unreadable
  | directory => .directory
  | file content => .file (f content)

/-- Why there can be no such path. -/
def refusal (path : String) : Error :=
  if Path.hasStrayHalf path then .unencodable else .nullInPath

/-- The content of the file that must stand under a path. -/
def read (path : String) : Lookup α → Except Error α
  | missing => .error (.fileMissing path)
  | blocked => .error (.notDirectory path)
  | unusable => .error (refusal path)
  | tooLong => .error (.nameTooLong path)
  | denied | unreadable => .error (.permissionDenied path)
  | directory => .error (.isDirectory path)
  | file content => .ok content

end Lookup

/-- A text as a file holds it: without halves. -/
def storable (text : String) : Except Error String :=
  if Text.hasHalf text then .error .unencodable else .ok text

end Refuter
