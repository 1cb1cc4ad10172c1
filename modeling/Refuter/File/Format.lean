import Refuter.Error
import Refuter.File.Path
import Refuter.Text.Lower

/-! # File formats by name and by extension

A format is found by its name or by the extension of a file, whatever the case
of the letters.
-/

namespace Refuter

/-- A file format. -/
structure Format where
  /-- The format's own name. -/
  name : String
  /-- The extensions of its files, with their dots. -/
  extensions : List String
  deriving Repr, DecidableEq, Inhabited

/-- The format of sentence files. -/
def Format.sentences : Format :=
  { name := "sentences", extensions := [".kb", ".fol"] }

/-- Formats by lower-case name, and names by lower-case extension. -/
structure Formats where
  /-- Formats by name. -/
  byName : Members Format := []
  /-- Names of formats by extension. -/
  byExtension : Members String := []
  deriving Repr, DecidableEq, Inhabited

namespace Formats

/-- Registers a format under a name, by default its own, and under its
    extensions. -/
def register (formats : Formats) (format : Format) (name : Option String) : Formats :=
  let chosen := match name with
    | some n => if n.isEmpty then format.name else n
    | none => format.name
  let key := Text.lower chosen
  { byName := formats.byName.set key format
    byExtension := format.extensions.foldl (fun known e => known.set (Text.lower e) key)
      formats.byExtension }

/-- The formats that are always there. -/
def standard : Formats :=
  register {} .sentences none

/-- The format of a name. -/
def named (formats : Formats) (name : String) : Except Error Format :=
  match formats.byName.get? (Text.lower name) with
  | some format => .ok format
  | none => .error (.unknownFormat name)

/-- The format for a file. -/
def forFile (formats : Formats) (path : String) : Except Error Format :=
  let suffix := Text.lower (Path.suffix path)
  match formats.byExtension.get? suffix with
  | some name => formats.named name
  | none => .error (.unknownExtension suffix)

/-- The format of a name if one is given, else the format for a file. -/
def choose (formats : Formats) (name path : Option String) : Except Error Format :=
  match name.filter (!·.isEmpty), path.filter (!·.isEmpty) with
  | some n, _ => formats.named n
  | none, some p => formats.forFile p
  | none, none => .error .noFormat

end Formats

end Refuter
