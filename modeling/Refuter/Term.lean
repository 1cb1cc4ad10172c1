/-! # Terms

The language is flat: a term is a variable or a constant, and there are no
function symbols. The kind belongs to the term and is not read off the
spelling of its name.
-/

namespace Refuter

/-- A variable or a constant. -/
inductive Term where
  /-- A name that stands for any individual. -/
  | var (name : String)
  /-- A name that stands for one individual. -/
  | const (name : String)
  deriving Repr, DecidableEq, Inhabited

namespace Term

/-- The name of a term of either kind; also its text. -/
def name : Term → String
  | var n => n
  | const n => n

/-- Is the term a variable? -/
def isVar : Term → Bool
  | var _ => true
  | const _ => false

/-- The term of the given kind. -/
def ofKind (isVariable : Bool) (name : String) : Term :=
  if isVariable then var name else const name

/-- The names of the variables of a list of terms, in order and with
    repetitions. -/
def vars (terms : List Term) : List String :=
  terms.filterMap fun
    | var n => some n
    | const _ => none

end Term

end Refuter
