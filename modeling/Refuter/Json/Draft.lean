import Refuter.Error
import Refuter.Json.Printer

/-! # Writing JSON into a file

A file is opened before its text is made, and the text goes into it piece by piece. Not
every value has a place in a file: a whole number must not have too many digits, and a
text must not hold a half. The first that has none ends the text, and what stands in
front of it is in the file by then.

**Pieces.** A name, a separator and a value without parts are a piece each. Only in a list
such a value goes together with what stands between it and the item in front.
-/

namespace Refuter

/-! ### Drafts -/

/-- A text in the making. -/
structure Draft where
  /-- The characters so far. -/
  chars : List Char := []
  /-- Why the text goes no further, if it does not. -/
  stop : Option Error := none

namespace Draft

/-- Goes on with another text, unless the first went no further. -/
def andThen (first second : Draft) : Draft :=
  match first.stop with
  | some _ => first
  | none => { second with chars := first.chars ++ second.chars }

instance : Append Draft := ⟨andThen⟩

/-- What there is of the text. -/
def text (draft : Draft) : String :=
  String.ofList draft.chars

end Draft

/-! ### The draft of a value -/

/-- Why a scalar has no place in a file, if it has none. -/
def Scalar.obstacle? (s : Scalar) : Option Error :=
  match s with
  | .str text => if Text.hasHalf text then some .unencodable else none
  | _ => if s.isWritable then none else some .unwritable

namespace Json

/-- The draft of a scalar that is one piece with what stands in front of it. -/
def draftScalar (front : List Char) (s : Scalar) : Draft :=
  match s.obstacle? with
  | some e => { stop := some e }
  | none => { chars := front ++ scalarText s }

/-- The draft of a name, with what stands behind it. -/
def draftName (name : String) : Draft :=
  draftScalar [] (.str name) ++ { chars := [':', ' '] }

mutual

/-- The draft of a value whose own items stand one level below `depth`; `front` is
    what stands in front of it. -/
def draftValue (indent : Option Nat) (depth : Nat) (front : List Char) : Json → Draft
  | .scalar s => draftScalar front s
  | .arr [] => { chars := front ++ ['[', ']'] }
  | .arr (v :: rest) =>
    { chars := front } ++ draftValue indent (depth + 1) ('[' :: newline indent (depth + 1)) v
      ++ draftItems indent (depth + 1) rest ++ { chars := newline indent depth ++ [']'] }
  | .obj [] => { chars := front ++ ['\x7b', '\x7d'] }
  | .obj ((name, v) :: rest) =>
    { chars := front ++ '\x7b' :: newline indent (depth + 1) } ++ draftName name
      ++ draftValue indent (depth + 1) [] v
      ++ draftMembers indent (depth + 1) rest ++ { chars := newline indent depth ++ ['\x7d'] }

/-- The draft of the items behind the first. -/
def draftItems (indent : Option Nat) (depth : Nat) : List Json → Draft
  | [] => {}
  | v :: rest => draftValue indent depth (separator indent depth) v ++ draftItems indent depth rest

/-- The draft of the members behind the first. -/
def draftMembers (indent : Option Nat) (depth : Nat) : List (String × Json) → Draft
  | [] => {}
  | (name, v) :: rest =>
    { chars := separator indent depth } ++ draftName name ++ draftValue indent depth [] v
      ++ draftMembers indent depth rest

end

/-- The draft of a value: on one line without `indent`, spread out with it. -/
def draft (indent : Option Nat) (value : Json) : Draft :=
  draftValue indent 0 [] value

/-- Writes a value under a path, spread out. What prevents the file from being opened
    comes before what is wrong with the value. -/
def writeTo {m : Type → Type} [Monad m] (write : String → String → m (Except Error Unit))
    (path : String) (value : Json) : m (Except Error Unit) := do
  let draft := value.draft (some 2)
  match ← write path draft.text, draft.stop with
  | .ok (), some e => return .error e
  | written, _ => return written

end Json

end Refuter
