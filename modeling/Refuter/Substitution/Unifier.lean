import Refuter.Substitution.Basic

/-! # Unification

Two terms are made equal by binding one of them, if it is a variable, to the
other. Two literals are unified argument by argument, carrying the bindings
along. Polarity is not compared: asking for opposite signs is the business of
the resolution rule.
-/

namespace Refuter

/-- Extends `σ` so that two terms become equal, if that is possible. The left
    variable is bound before the right one. -/
def unifyTerms (σ : Substitution) (t u : Term) : Option Substitution :=
  let t := σ.resolve t
  let u := σ.resolve u
  if t = u then some σ
  else match t, u with
    | .var x, u => if σ.occurs x u then none else (σ.bind x u).toOption
    | t, .var y => if σ.occurs y t then none else (σ.bind y t).toOption
    | .const _, .const _ => none

/-- Unifies two argument lists from left to right. -/
def unifyArgs (σ : Substitution) : List Term → List Term → Option Substitution
  | t :: ts, u :: us =>
    match unifyTerms σ t u with
    | none => none
    | some τ => unifyArgs τ ts us
  | _, _ => some σ

/-- A most general substitution that makes the atoms of two literals equal. -/
def unify (l r : Literal) : Option Substitution :=
  if l.name = r.name ∧ l.arity = r.arity then unifyArgs {} l.args r.args else none

/-! ### The terms of a unifier

A unifier binds variables only to terms of the two literals. -/

theorem unifyTerms_closed {σ τ : Substitution} {P : Term → Prop} {t u : Term}
    (hσ : ∀ b ∈ σ.bindings, P b.2) (ht : P t) (hu : P u) (h : unifyTerms σ t u = some τ) :
    ∀ b ∈ τ.bindings, P b.2 := by
  have ht' : P (σ.resolve t) := Substitution.resolve_closed hσ ht
  have hu' : P (σ.resolve u) := Substitution.resolve_closed hσ hu
  -- either nothing is bound, or one resolved term is bound to the other
  have ofBind : ∀ {x : String} {v : Term}, P v → (σ.bind x v).toOption = some τ →
      ∀ b ∈ τ.bindings, P b.2 := by
    intro x v hv hb
    cases hbind : σ.bind x v with
    | error e => rw [hbind] at hb; cases hb
    | ok ρ =>
      rw [hbind] at hb
      obtain rfl : ρ = τ := by simpa [Except.toOption] using hb
      exact Substitution.bind_closed hσ hv hbind
  unfold unifyTerms at h
  dsimp only at h
  split at h
  · obtain rfl : σ = τ := by simpa using h
    exact hσ
  · split at h
    · split at h
      · cases h
      · exact ofBind hu' h
    · split at h
      · cases h
      · exact ofBind ht' h
    · cases h

theorem unifyArgs_closed {P : Term → Prop} (ts us : List Term) :
    ∀ {σ τ : Substitution}, (∀ b ∈ σ.bindings, P b.2) → (∀ t ∈ ts, P t) → (∀ u ∈ us, P u) →
      unifyArgs σ ts us = some τ → ∀ b ∈ τ.bindings, P b.2 := by
  induction ts generalizing us with
  | nil =>
    intro σ τ hσ _ _ h
    obtain rfl : σ = τ := by simpa [unifyArgs] using h
    exact hσ
  | cons t ts ih =>
    cases us with
    | nil =>
      intro σ τ hσ _ _ h
      obtain rfl : σ = τ := by simpa [unifyArgs] using h
      exact hσ
    | cons u us =>
      intro σ τ hσ ht hu h
      simp only [unifyArgs] at h
      split at h
      · cases h
      · rename_i ρ hρ
        have hρ' := unifyTerms_closed hσ (ht t (List.mem_cons_self ..))
          (hu u (List.mem_cons_self ..)) hρ
        exact ih us hρ' (fun t' h' => ht t' (List.mem_cons_of_mem _ h'))
          (fun u' h' => hu u' (List.mem_cons_of_mem _ h')) h

/-- **A unifier binds to terms of the two literals only.** -/
theorem unify_closed {l r : Literal} {σ : Substitution} {P : Term → Prop}
    (hl : ∀ t ∈ l.args, P t) (hr : ∀ t ∈ r.args, P t) (h : unify l r = some σ) :
    ∀ b ∈ σ.bindings, P b.2 := by
  unfold unify at h
  split at h
  · exact unifyArgs_closed l.args r.args (by simp) hl hr h
  · cases h

end Refuter
