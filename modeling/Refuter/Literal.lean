import Refuter.Term

/-! # Literals

A literal is an atom `Name(t₁, …, tₙ)` or its negation. The same name may
occur with several numbers of arguments.
-/

namespace Refuter

/-- A possibly negated atom. -/
structure Literal where
  /-- The predicate symbol. -/
  name : String
  /-- The arguments. -/
  args : List Term := []
  /-- Is the atom negated? -/
  negated : Bool := false
  deriving Repr, DecidableEq, Inhabited

namespace Literal

/-- The number of arguments. -/
def arity (l : Literal) : Nat :=
  l.args.length

/-- The literal of opposite polarity. -/
def negate (l : Literal) : Literal :=
  { l with negated := !l.negated }

/-- Same symbol and opposite polarity; the arguments are not compared. -/
def isComplementary (l r : Literal) : Bool :=
  l.name == r.name && l.negated != r.negated

/-- The names of the variables, in order and with repetitions. -/
def vars (l : Literal) : List String :=
  Term.vars l.args

/-- The text of a literal, which the sentence layer reads back. -/
def text (l : Literal) : String :=
  let sign := if l.negated then "¬" else ""
  if l.args.isEmpty then sign ++ l.name
  else sign ++ l.name ++ "(" ++ ", ".intercalate (l.args.map Term.name) ++ ")"

/-- Applies a function to every argument. -/
def mapArgs (f : Term → Term) (l : Literal) : Literal :=
  { l with args := l.args.map f }

@[simp] theorem negate_negate (l : Literal) : l.negate.negate = l := by
  cases l; simp [negate]

end Literal

end Refuter
