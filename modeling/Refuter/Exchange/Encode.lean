import Refuter.Derivation.Basic
import Refuter.Exchange.Value

/-! # Writing clauses and derivations

Terms, literals, clauses, substitutions and derivations become values, and
values are written. A step names its clauses by number; the clauses themselves
stand once in the list of the derivation.

**Nothing is lost.** The value of a term, a literal, a clause or a substitution
tells which one it was: `term?_ofTerm`, `literal?_ofLiteral`, `clause?_ofClause`,
`substitution?_ofSubstitution`.
-/

namespace Refuter

namespace Value

/-- A value that may be absent. -/
def ofOption {α : Type} (f : α → Value) : Option α → Value
  | none => .null
  | some a => f a

/-- A term as a value. -/
def ofTerm (t : Term) : Value :=
  .term (.str t.name) (.bool t.isVar)

/-- A literal as a value. -/
def ofLiteral (l : Literal) : Value :=
  .literal (.str l.name) (l.args.map ofTerm) (.bool l.negated)

/-- A clause as a value. -/
def ofClause (c : LabelledClause) : Value :=
  .clause (ofOption .int c.id) (c.literals.map ofLiteral)

/-- A substitution as a value. -/
def ofSubstitution (σ : Substitution) : Value :=
  .substitution (σ.bindings.map fun (name, t) => (.str name, ofTerm t))

/-- A step as a value. -/
def ofStep (step : Step) : Value :=
  .step (.int step.number) (.int step.left.id) (.int step.right.id) (.int step.resolvent.id)
    (ofSubstitution step.unifier)

/-- A derivation as a value. What was reported to its trace and which pairs were
    tried is not exchanged. -/
def ofDerivation (d : Derivation) : Value :=
  .derivation (ofOption .str d.query) (ofOption (fun c => .int c.id) d.negatedQuery) d.outcome
    (.int d.passes) (d.working.clauses.map fun c => ofClause c.labelled) (d.steps.map ofStep)

/-! ### What a value stands for -/

/-- The term that a value stands for. -/
def term? : Value → Option Term
  | .term (.str name) (.bool isVariable) => some (Term.ofKind isVariable name)
  | _ => none

/-- The literal that a value stands for. -/
def literal? : Value → Option Literal
  | .literal (.str name) terms (.bool negated) => do
    return { name, args := ← terms.mapM term?, negated }
  | _ => none

/-- The clause that a value stands for. -/
def clause? : Value → Option LabelledClause
  | .clause .null literals => do return { literals := ← literals.mapM literal? }
  | .clause (.int id) literals => do return { literals := ← literals.mapM literal?, id := some id }
  | _ => none

/-- The substitution that a value stands for. -/
def substitution? : Value → Option Substitution
  | .substitution bindings => do
    return ⟨← bindings.mapM fun
      | (.str name, v) => v.term?.map fun t => (name, t)
      | _ => none⟩
  | _ => none

theorem term?_ofTerm (t : Term) : term? (ofTerm t) = some t := by
  cases t <;> rfl

/-- Reading each of some values back gives what they were made of. -/
theorem mapM_map_eq_some {α : Type} {read : Value → Option α} {make : α → Value}
    (h : ∀ a, read (make a) = some a) (as : List α) : (as.map make).mapM read = some as := by
  induction as with
  | nil => rfl
  | cons a rest ih => simp [List.mapM_cons, h, ih]

theorem literal?_ofLiteral (l : Literal) : literal? (ofLiteral l) = some l := by
  simp [literal?, ofLiteral, mapM_map_eq_some term?_ofTerm]

theorem clause?_ofClause (c : LabelledClause) : clause? (ofClause c) = some c := by
  obtain ⟨⟨literals⟩, id⟩ := c
  cases id <;> simp [clause?, ofClause, ofOption, mapM_map_eq_some literal?_ofLiteral]

theorem substitution?_ofSubstitution (σ : Substitution) :
    substitution? (ofSubstitution σ) = some σ := by
  obtain ⟨bindings⟩ := σ
  have h : (bindings.map fun b => ((.str b.1, ofTerm b.2) : Value × Value)).mapM
      (fun | (.str name, v) => v.term?.map fun t => (name, t) | _ => none) = some bindings := by
    induction bindings with
    | nil => rfl
    | cons b rest ih => simp [List.mapM_cons, term?_ofTerm, ih]
  simp [substitution?, ofSubstitution, h]

end Value

/-! ### Texts -/

/-- The text of a list of clauses, unless a number has too many digits. -/
def writeClauses (clauses : List LabelledClause) (indent : Option Nat) : Except Error String := do
  return (← (Value.arr (clauses.map Value.ofClause)).written).render indent

/-- A derivation as it is written. -/
def Derivation.toJson (d : Derivation) : Json :=
  (Value.ofDerivation d).toJson

/-- The text of a derivation, unless a number has too many digits. -/
def Derivation.write (d : Derivation) (indent : Option Nat) : Except Error String := do
  return (← (Value.ofDerivation d).written).render indent

end Refuter
