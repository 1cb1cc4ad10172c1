import Refuter.Literal

/-! # Clauses

A clause is a disjunction of literals, kept in the order in which they were
written. Two clauses are *the same* when they have the same set of literals;
order and repetition do not count.

A clause may carry a number. In a working set every clause has one
(`NumberedClause`); a clause that is only exchanged may lack it
(`LabelledClause`). Numbers say where a clause came from and take no part in
its identity.
-/

namespace Refuter

/-- A disjunction of literals. -/
structure Clause where
  /-- The literals in the order written. -/
  literals : List Literal := []
  deriving Repr, DecidableEq, Inhabited

/-- A clause that may carry a number. -/
structure LabelledClause extends Clause where
  /-- The number, if there is one. -/
  id : Option Int := none
  deriving Repr, DecidableEq, Inhabited

/-- A clause of a working set. -/
structure NumberedClause extends Clause where
  /-- The number. -/
  id : Int
  deriving Repr, DecidableEq, Inhabited

namespace Clause

/-- The empty clause is the contradiction. -/
def isEmpty (c : Clause) : Bool :=
  c.literals.isEmpty

/-- The text of a clause. -/
def text (c : Clause) : String :=
  if c.literals.isEmpty then "□" else " ∨ ".intercalate (c.literals.map Literal.text)

/-- Have two clauses the same set of literals? -/
def same (c d : Clause) : Bool :=
  c.literals.all (d.literals.contains ·) && d.literals.all (c.literals.contains ·)

/-- The names of the variables, in order and with repetitions. -/
def vars (c : Clause) : List String :=
  c.literals.flatMap Literal.vars

/-- Applies a function to every term. -/
def mapTerms (f : Term → Term) (c : Clause) : Clause :=
  ⟨c.literals.map (Literal.mapArgs f)⟩

/-- **Identity of clauses.** Two clauses are the same exactly when each literal
    of one is a literal of the other. -/
theorem same_iff {c d : Clause} :
    c.same d = true ↔ ∀ l, l ∈ c.literals ↔ l ∈ d.literals := by
  simp only [same, Bool.and_eq_true, List.all_eq_true, List.contains_iff_mem]
  exact ⟨fun ⟨h₁, h₂⟩ l => ⟨h₁ l, h₂ l⟩, fun h => ⟨fun l => (h l).1, fun l => (h l).2⟩⟩

theorem same_refl (c : Clause) : c.same c = true :=
  same_iff.2 fun _ => Iff.rfl

theorem same_symm {c d : Clause} (h : c.same d = true) : d.same c = true :=
  same_iff.2 fun l => ((same_iff.1 h) l).symm

theorem same_trans {c d e : Clause} (h₁ : c.same d = true) (h₂ : d.same e = true) :
    c.same e = true :=
  same_iff.2 fun l => ((same_iff.1 h₁) l).trans ((same_iff.1 h₂) l)

end Clause

/-- A clause under a number. -/
def Clause.withId (c : Clause) (id : Int) : NumberedClause :=
  { c with id }

/-- A numbered clause as it is exchanged. -/
def NumberedClause.labelled (c : NumberedClause) : LabelledClause :=
  { c.toClause with id := some c.id }

end Refuter
