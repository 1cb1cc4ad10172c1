import Refuter.File.Lookup
import Refuter.File.Path

/-! # Folders

A folder is a tree of text files below a root, held as a list of places with
contents; a place is given by its components. Every directory above a file is
there; a directory without files has to be made. One directory is the one in
which a program works.

**Walking.** A path with a root is followed from there, any other from the
working directory, part by part. Each part but the last must lead to a
directory; an empty part and a single dot stay there, and `..` leads one
directory up, but at the root. So a slash at the end asks for a directory. A
name that is too long for any file ends the walk.

**Permissions.** The system may deny to enter a directory, that is, to look
anything up in it; to read what is at a place; and to write there. What is made
in a directory is written there.
-/

namespace Refuter

/-- What the system may deny. -/
inductive Access where
  /-- To look something up in a directory. -/
  | enter
  /-- To read a file, or to list a directory. -/
  | read
  /-- To write a file, or to make something in a directory. -/
  | write
  deriving Repr, DecidableEq

/-- A tree of text files. -/
structure Folder where
  /-- The files by their components, each with its content. -/
  files : List (List String × String) := []
  /-- Directories that were made, by their components. -/
  directories : List (List String) := []
  /-- The directory from which paths without a root are followed. -/
  working : List String := []
  /-- What the system denies, and where. -/
  denied : List (Access × List String) := []
  deriving Repr, DecidableEq, Inhabited

/-- Where a path leads in a folder. -/
inductive Place where
  /-- To a directory. -/
  | directory (components : List String)
  /-- To a file. -/
  | file (components : List String) (content : String)
  /-- To nothing, but its directory is there. -/
  | free (components : List String)
  /-- To nothing, because a directory on the way is missing. -/
  | nowhere
  /-- To nothing, because a file stands on the way. -/
  | blocked
  /-- To nothing, because there can be no such path. -/
  | unusable
  /-- To nothing, because a name on the way is too long. -/
  | tooLong
  /-- There is no telling, because a directory on the way may not be entered. -/
  | denied
  deriving Repr, DecidableEq

/-- Why a path does not lead to a file that can be written. -/
def Place.refusal (path : String) : Place → Error
  | directory _ => .isDirectory path
  | nowhere => .fileMissing path
  | blocked => .notDirectory path
  | unusable => Lookup.refusal path
  | tooLong => .nameTooLong path
  | file .. | free _ | denied => .permissionDenied path

namespace Folder

/-! ### Places -/

/-- The directory from which a path is followed. -/
def start (working : List String) (path : String) : List String :=
  if (Path.root path).isEmpty then working else []

/-- A folder of files under their paths. -/
def ofFiles (files : List (String × String)) (working : List String := ["work"]) : Folder :=
  { files := files.map fun (path, content) => (start working path ++ Path.components path, content)
    working }

/-- Does the system permit something at a place? -/
def permits (folder : Folder) (access : Access) (place : List String) : Bool :=
  !folder.denied.contains (access, place)

/-- May something be made at a place where nothing is? -/
def permitsNew (folder : Folder) (place : List String) : Bool :=
  folder.permits .write place.dropLast && folder.permits .write place

/-- Is there a directory at these components? -/
def isDirectory (folder : Folder) (place : List String) : Bool :=
  place.isPrefixOf folder.working || folder.directories.any (place.isPrefixOf ·)
    || folder.files.any fun (file, _) => place.isPrefixOf file && place ≠ file

/-- What stands at these components, whose directory is there. -/
def placeAt (folder : Folder) (place : List String) : Place :=
  match folder.files.lookup place with
  | some content => .file place content
  | none => if folder.isDirectory place then .directory place else .free place

/-- The path to a place: from the working directory if it is below. -/
def pathTo (folder : Folder) (place : List String) : String :=
  if folder.working.isPrefixOf place then "/".intercalate (place.drop folder.working.length)
  else "/" ++ "/".intercalate place

/-! ### Walking -/

/-- Follows the parts of a path from a directory. -/
def walk (folder : Folder) (directory : List String) : List String → Place
  | [] => .directory directory
  | name :: rest =>
    if name = "" then walk folder directory rest
    else if !folder.permits .enter directory then .denied
    else if name = "." then walk folder directory rest
    else if name = ".." then walk folder directory.dropLast rest
    else if Path.maxName < name.utf8ByteSize then .tooLong
    else
      match folder.placeAt (directory ++ [name]) with
      | .directory place => walk folder place rest
      | .file place content => if rest.isEmpty then .file place content else .blocked
      | place => if rest.isEmpty then place else .nowhere

/-- Follows a path. -/
def locate (folder : Folder) (path : String) : Place :=
  if !Path.isUsable path then .unusable
  else if Path.maxLength < path.utf8ByteSize then .tooLong
  else folder.walk (start folder.working path) (Path.parts path)

/-! ### Reading -/

/-- What is found under a path. -/
def look (folder : Folder) (path : String) : Lookup String :=
  match folder.locate path with
  | .directory place => if folder.permits .read place then .directory else .unreadable
  | .file place content => if folder.permits .read place then .file content else .unreadable
  | .free _ | .nowhere => .missing
  | .blocked => .blocked
  | .unusable => .unusable
  | .tooLong => .tooLong
  | .denied => .denied

/-- The shortest path to the file under a path. -/
def pathOf? (folder : Folder) (path : String) : Option String :=
  match folder.locate path with
  | .file place _ => some (folder.pathTo place)
  | _ => none

/-! ### Writing -/

/-- Where a file can be written, if a path leads to such a place: to a file, or to nothing in
    a directory in which it can be made. -/
def writable? (folder : Folder) : Place → Option (List String)
  | .file place _ => if folder.permits .write place then some place else none
  | .free place => if folder.permitsNew place then some place else none
  | .directory _ | .nowhere | .blocked | .unusable | .tooLong | .denied => none

/-- The place that a path opens for writing, if it opens one. -/
def opens? (folder : Folder) (path : String) : Option (List String) :=
  folder.writable? (folder.locate path)

/-- Puts a file in its place, over the one that was there. -/
def put (folder : Folder) (place : List String) (content : String) : Folder :=
  { folder with files := folder.files.filter (·.1 ≠ place) ++ [(place, content)] }

/-- Writes a file. Its path must open a place, and its content must be storable. -/
def write (folder : Folder) (path content : String) : Except Error Folder :=
  match folder.opens? path with
  | some place => (storable content).map (folder.put place)
  | none => .error ((folder.locate path).refusal path)

/-- Makes one directory, unless it is there. -/
def makeOne (folder : Folder) (path : String) : Except Error Folder :=
  match folder.locate path with
  | .directory _ => .ok folder
  | .free place =>
    if folder.permitsNew place then
      .ok { folder with directories := folder.directories ++ [place] }
    else .error (.permissionDenied path)
  | .file .. => .error (.fileExists path)
  | place => .error (place.refusal path)

/-- Makes a directory with the given components, the last one first. Those above it are
    made only when it is told that one is missing. -/
def makeBelow (folder : Folder) (root : String) : List String → Except Error Folder
  | [] => folder.makeOne (Path.ofComponents root [])
  | name :: above =>
    let path := Path.ofComponents root (name :: above).reverse
    match folder.locate path with
    | .nowhere => do (← makeBelow folder root above).makeOne path
    | _ => folder.makeOne path

/-- Makes a directory and those above it, unless they are there. -/
def makeDirectory (folder : Folder) (path : String) : Except Error Folder :=
  folder.makeBelow (Path.root path) (Path.components path).reverse

/-- The files below the working directory that an earlier folder did not have, by their
    paths. -/
def filesSince (folder earlier : Folder) : List (String × String) :=
  (folder.files.filter fun (place, _) =>
    folder.working.isPrefixOf place && (earlier.files.lookup place).isNone).map
    fun (place, content) => (folder.pathTo place, content)

end Folder

end Refuter
