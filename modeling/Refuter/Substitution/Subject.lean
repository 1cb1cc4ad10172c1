import Refuter.Substitution.Basic

/-! # What a substitution is applied to

Terms, literals and clauses can be substituted in; a value of any other kind
cannot. Values of different kinds are never the same.
-/

namespace Refuter

/-- A value offered to a substitution. -/
inductive Subject where
  /-- A term. -/
  | term (t : Term)
  /-- A literal. -/
  | literal (l : Literal)
  /-- A clause. -/
  | clause (c : LabelledClause)
  /-- A value of another kind. -/
  | other (value : Json)

namespace Subject

/-- Applies a substitution; the number of a clause stays. -/
def apply (σ : Substitution) : Subject → Except Error Subject
  | .term t => .ok (.term (σ.resolve t))
  | .literal l => .ok (.literal (σ.applyLiteral l))
  | .clause c => .ok (.clause { σ.apply c.toClause with id := c.id })
  | .other value => .error (.notSubject value)

/-- Are two values the same? Clauses are compared as sets of literals. -/
def same : Subject → Subject → Bool
  | .term t, .term u => t = u
  | .literal l, .literal m => l = m
  | .clause c, .clause d => c.toClause.same d.toClause
  | .other (.scalar s), .other (.scalar t) => s.key = t.key
  | .other v, .other w => v == w
  | _, _ => false

/-- The number of different values in a list. -/
def countDistinct (values : List Subject) : Nat :=
  (values.foldl (fun seen v => if seen.any (v.same ·) then seen else v :: seen) []).length

end Subject

end Refuter
