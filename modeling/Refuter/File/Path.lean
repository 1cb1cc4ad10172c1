import Refuter.Text.Blank
import Refuter.Text.Half

/-! # Paths

A path is a text with slashes. In its normal form empty parts and single dots
do not count, so a slash at the end makes no difference. The *suffix* of a path is the part of
its last component from the last dot on, unless that dot stands first or last;
the *stem* is what is left.
-/

namespace Refuter.Path

/-- Does a path hold a half that stands for nothing? Those from U+DC80 to U+DCFF
    stand for single bytes. -/
def hasStrayHalf (path : String) : Bool :=
  (Text.pieces path.toList).any fun
    | .half n => n.val < 0x480 || 0x500 ≤ n.val
    | .char _ => false

/-- Can there be such a path? The character U+0000 ends a path, so none has it
    inside. -/
def isUsable (path : String) : Bool :=
  !hasStrayHalf path && path.toList.all fun c => c.toNat ≠ 0

/-- The bytes that the name of a file can have at most. -/
def maxName : Nat := 255

/-- The bytes that a path can have at most. -/
def maxLength : Nat := 4095

/-- The parts between the slashes. -/
def parts (path : String) : List String :=
  (Text.splitAt '/' path.toList).map String.ofList

/-- The components of a path that count. -/
def components (path : String) : List String :=
  ((Text.splitAt '/' path.toList).filter fun part => part ≠ [] && part ≠ ['.']).map String.ofList

/-- The slashes a path starts with: none, one, or exactly two. -/
def root (path : String) : String :=
  match path.toList with
  | '/' :: '/' :: '/' :: _ => "/"
  | '/' :: '/' :: _ => "//"
  | '/' :: _ => "/"
  | _ => ""

/-- The path with a root and with components that count. Without either it is a dot. -/
def ofComponents (root : String) (components : List String) : String :=
  let text := root ++ "/".intercalate components
  if text.isEmpty then "." else text

/-- The text of a path without what does not count. -/
def normal (path : String) : String :=
  ofComponents (root path) (components path)

/-- The last component, empty if there is none. -/
def fileName (path : String) : String :=
  ((components path).getLast?).getD ""

/-- The directory that holds the path. -/
def parent (path : String) : String :=
  ofComponents (root path) (components path).dropLast

/-- The last component up to and from its last dot; the second part is empty
    when there is no dot or it stands first or last. -/
def splitSuffix (path : String) : String × String :=
  let name := (fileName path).toList
  let tail := name.reverse.takeWhile (· ≠ '.')
  let stemLength := name.length - tail.length - 1
  if tail.length < name.length ∧ 0 < stemLength ∧ tail ≠ [] then
    (String.ofList (name.take stemLength), String.ofList (name.drop stemLength))
  else (String.ofList name, "")

/-- The last component without its suffix. -/
def stem (path : String) : String :=
  (splitSuffix path).1

/-- The suffix, with its dot. -/
def suffix (path : String) : String :=
  (splitSuffix path).2

end Refuter.Path
