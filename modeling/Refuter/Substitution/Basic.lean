import Refuter.Error

/-! # Substitutions

A substitution binds variable names to terms, in order of binding; binding a
name again keeps its place. Bindings form chains: `x ↦ y, y ↦ A` sends `x` to
`A`. Terms are flat, so following a chain is all there is to applying one.

**Chains end.** In an acyclic substitution a chain passes each bound variable
at most once, so it is over after as many steps as there are bindings; that is
how far `resolve` follows it.
-/

namespace Refuter

/-- Variable names bound to terms. -/
structure Substitution where
  /-- The bindings in order. -/
  bindings : Members Term := []
  deriving Repr, DecidableEq, Inhabited

namespace Substitution

/-- Is the name bound? -/
def contains (σ : Substitution) (name : String) : Bool :=
  (σ.bindings.get? name).isSome

/-- The number of bindings. -/
def size (σ : Substitution) : Nat :=
  σ.bindings.length

/-! ### Following bindings -/

/-- Follows at most `fuel` bindings. -/
def follow (σ : Substitution) : Nat → Term → Term
  | 0, t => t
  | _ + 1, .const c => .const c
  | fuel + 1, .var x =>
    match σ.bindings.get? x with
    | none => .var x
    | some t => σ.follow fuel t

/-- Follows bindings until a constant or an unbound variable is reached. -/
def resolve (σ : Substitution) (t : Term) : Term :=
  σ.follow σ.size t

/-- Applies a substitution to a literal. -/
def applyLiteral (σ : Substitution) (l : Literal) : Literal :=
  l.mapArgs σ.resolve

/-- Applies a substitution to a clause. -/
def apply (σ : Substitution) (c : Clause) : Clause :=
  ⟨c.literals.map σ.applyLiteral⟩

/-! ### Binding -/

/-- Is `term` the variable `name`? Flat terms hold no variable but themselves. -/
def occursIn (name : String) (term : Term) : Bool :=
  term = .var name

/-- Does `term`, followed through the bindings, end at the variable `name`? -/
def occurs (σ : Substitution) (name : String) (term : Term) : Bool :=
  occursIn name (σ.resolve term)

/-- Adds a binding, unless its term leads to the bound variable. -/
def bind (σ : Substitution) (name : String) (term : Term) : Except Error Substitution :=
  if σ.occurs name term then .error (.occurs name term)
  else .ok ⟨σ.bindings.set name term⟩

/-- First `σ`, then `τ`: the terms of `σ` with `τ` applied, followed by the
    bindings of `τ` for names that `σ` leaves free. -/
def compose (σ τ : Substitution) : Substitution :=
  let first := σ.bindings.map fun (name, term) => (name, τ.resolve term)
  ⟨first ++ τ.bindings.filter fun (name, _) => !σ.contains name⟩

/-- The text of a substitution. -/
def text (σ : Substitution) : String :=
  "\x7b" ++ ", ".intercalate (σ.bindings.map fun (name, term) => name ++ " -> " ++ term.name)
    ++ "\x7d"

/-! ### Where a chain can end

Following bindings never leaves a set of terms that contains the start and
every bound term. -/

theorem mem_of_get? {members : Members Term} {name : String} {t : Term}
    (h : members.get? name = some t) : (name, t) ∈ members := by
  induction members with
  | nil => simp [Members.get?] at h
  | cons m rest ih =>
    obtain ⟨n, u⟩ := m
    simp only [Members.get?, List.lookup_cons] at h ih ⊢
    split at h
    · rename_i heq
      simp only [beq_iff_eq] at heq
      obtain rfl : u = t := by simpa using h
      simp [heq]
    · exact List.mem_cons_of_mem _ (ih h)

theorem follow_closed {σ : Substitution} {P : Term → Prop}
    (hσ : ∀ b ∈ σ.bindings, P b.2) (fuel : Nat) {t : Term} (ht : P t) : P (σ.follow fuel t) := by
  induction fuel generalizing t with
  | zero => exact ht
  | succ fuel ih =>
    cases t with
    | const c => exact ht
    | var x =>
      simp only [follow]
      split
      · exact ht
      · rename_i u hu
        exact ih (hσ _ (mem_of_get? hu))

/-- **Resolving stays inside:** a property of the start and of all bound terms
    holds of the end. -/
theorem resolve_closed {σ : Substitution} {P : Term → Prop}
    (hσ : ∀ b ∈ σ.bindings, P b.2) {t : Term} (ht : P t) : P (σ.resolve t) :=
  follow_closed hσ _ ht

theorem mem_set {members : Members Term} {name : String} {t : Term} {b : String × Term}
    (h : b ∈ members.set name t) : b ∈ members ∨ b.2 = t := by
  induction members with
  | nil => simp_all [Members.set]
  | cons m rest ih =>
    obtain ⟨n, u⟩ := m
    simp only [Members.set] at h
    split at h
    · rcases List.mem_cons.1 h with rfl | h
      · exact .inr rfl
      · exact .inl (List.mem_cons_of_mem _ h)
    · rcases List.mem_cons.1 h with rfl | h
      · exact .inl (List.mem_cons_self ..)
      · exact (ih h).imp (List.mem_cons_of_mem _) id

/-- A binding adds no term but its own. -/
theorem bind_closed {σ τ : Substitution} {P : Term → Prop} {name : String} {t : Term}
    (hσ : ∀ b ∈ σ.bindings, P b.2) (ht : P t) (h : σ.bind name t = .ok τ) :
    ∀ b ∈ τ.bindings, P b.2 := by
  unfold bind at h
  split at h
  · simp at h
  · obtain rfl : (⟨σ.bindings.set name t⟩ : Substitution) = τ := by simpa using h
    intro b hb
    rcases mem_set hb with hb | hb
    · exact hσ b hb
    · exact hb ▸ ht

end Substitution

end Refuter
