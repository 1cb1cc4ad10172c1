import Refuter.Proofs.Herbrand
import Refuter.Proofs.Unifier
import Refuter.Substitution.Subject

/-! # Most general unifiers

An assignment of terms to variable names *unifies* two literals when it gives
them one atom. Unification is compared with all such assignments:

- it succeeds exactly when there is one (`exists_unify_iff`);
- its result is *most general*: every unifying assignment stays the same when
  the result is applied first (`mostGeneral_of_unify`);
- the check for occurrence, made before each binding and once more inside it,
  never strikes (`unhindered`).

**Key idea.** Bindings are kept in triangular form, so the result is not an
assignment as it stands: the chains have to be followed. As long as they all
end, following them to the end is an assignment (`Substitution.ends`), and it
is one of those compared with.
-/

namespace Refuter

/-- Putting `θ` for the variables gives two literals one atom. Signs are not
    compared. -/
structure Unifies (θ : String → Term) (l r : Literal) : Prop where
  /-- One predicate symbol. -/
  name : l.name = r.name
  /-- One number of arguments. -/
  arity : l.arity = r.arity
  /-- The same arguments under the assignment. -/
  args : l.args.map (Term.instantiate θ) = r.args.map (Term.instantiate θ)

/-- **A most general unifier** of two literals. -/
structure Substitution.MostGeneral (σ : Substitution) (l r : Literal) : Prop where
  /-- Every chain of bindings ends. -/
  acyclic : σ.Acyclic
  /-- The two literals get one predicate symbol, -/
  name : (σ.applyLiteral l).name = (σ.applyLiteral r).name
  /-- and the same arguments. -/
  args : (σ.applyLiteral l).args = (σ.applyLiteral r).args
  /-- Every unifying assignment factors through the unifier. -/
  factors : ∀ θ, Unifies θ l r → ∀ t, Term.instantiate θ (σ.resolve t) = Term.instantiate θ t
  /-- Applying the unifier twice, to a term, a literal or a clause, is applying
      it once. -/
  idempotent : ∀ s : Subject, (s.apply σ).bind (Subject.apply σ) = s.apply σ

/-! ### A substitution as an assignment -/

namespace Substitution

/-- Each variable goes to the end of its chain. -/
def ends (σ : Substitution) (x : String) : Term :=
  σ.resolve (.var x)

theorem instantiate_ends (σ : Substitution) : Term.instantiate σ.ends = σ.resolve := by
  funext t
  cases t with
  | var x => rfl
  | const c => exact (σ.resolve_const c).symm

theorem Acyclic.applyLiteral_applyLiteral {σ : Substitution} (h : σ.Acyclic) (l : Literal) :
    σ.applyLiteral (σ.applyLiteral l) = σ.applyLiteral l := by
  have hargs : (l.args.map σ.resolve).map σ.resolve = l.args.map σ.resolve := by
    rw [List.map_map]
    exact List.map_congr_left fun t _ => h.absorbs_resolve t
  simp only [applyLiteral, Literal.mapArgs, hargs]

/-- **Once is enough:** an acyclic substitution changes nothing that it was
    applied to before. -/
theorem Acyclic.apply_idempotent {σ : Substitution} (h : σ.Acyclic) (s : Subject) :
    (s.apply σ).bind (Subject.apply σ) = s.apply σ := by
  cases s with
  | term t =>
    show Except.ok (Subject.term (σ.resolve (σ.resolve t))) = .ok (.term (σ.resolve t))
    rw [h.absorbs_resolve t]
  | literal l =>
    show Except.ok (Subject.literal (σ.applyLiteral (σ.applyLiteral l)))
      = .ok (.literal (σ.applyLiteral l))
    rw [h.applyLiteral_applyLiteral]
  | clause c =>
    have hclause : σ.apply (σ.apply c.toClause) = σ.apply c.toClause := by
      simp only [apply, List.map_map]
      congr 1
      exact List.map_congr_left fun l _ => h.applyLiteral_applyLiteral l
    show Except.ok (Subject.clause { σ.apply (σ.apply c.toClause) with id := c.id })
      = .ok (.clause { σ.apply c.toClause with id := c.id })
    rw [hclause]
  | other value => rfl

end Substitution

open Substitution

/-! ### The result against all assignments -/

/-- **Unification succeeds exactly on unifiable literals.** -/
theorem exists_unify_iff {l r : Literal} :
    (∃ σ, unify l r = some σ) ↔ ∃ θ, Unifies θ l r := by
  constructor
  · rintro ⟨σ, hσ⟩
    obtain ⟨_, hname, hargs⟩ := unify_sound hσ
    rw [← instantiate_ends] at hargs
    have harity : l.arity = r.arity := by
      simpa [Literal.arity] using congrArg List.length hargs
    exact ⟨σ.ends, hname, harity, hargs⟩
  · rintro ⟨θ, hθ⟩
    -- an assignment leaves constants alone, so it tells them apart
    obtain ⟨σ, hσ, _⟩ := unify_of_solution (fun a b => Term.const.inj) hθ.name hθ.args
    exact ⟨σ, hσ⟩

/-- **The result of unification is most general.** -/
theorem mostGeneral_of_unify {l r : Literal} {σ : Substitution} (h : unify l r = some σ) :
    σ.MostGeneral l r := by
  obtain ⟨hacyclic, hname, hargs⟩ := unify_sound h
  refine ⟨hacyclic, hname, hargs, ?_, hacyclic.apply_idempotent⟩
  intro θ hθ
  obtain ⟨τ, hτ, habsorbs⟩ := unify_of_solution (fun a b => Term.const.inj) hθ.name hθ.args
  obtain rfl : σ = τ := Option.some.inj (h.symm.trans hτ)
  exact habsorbs

/-! ### The check for occurrence -/

/-- When two terms are unified under `σ` and one of their ends is a variable
    other than the other end, neither the check before the binding nor the one
    made by the binding strikes. -/
def BindsFreely (σ : Substitution) (t u : Term) : Prop :=
  ∀ x v, (σ.resolve t = .var x ∧ σ.resolve u = v ∨ σ.resolve t = v ∧ σ.resolve u = .var x) →
    v ≠ .var x → σ.occurs x v = false ∧ ∃ τ, σ.bind x v = .ok τ

/-- No check strikes from the first pair of arguments to the last, each pair
    being unified under the bindings made for those before it. -/
def Unhindered (σ : Substitution) : List Term → List Term → Prop
  | t :: ts, u :: us =>
    BindsFreely σ t u ∧ ∀ τ, unifyTerms σ t u = some τ → Unhindered τ ts us
  | _, _ => True

theorem Substitution.Acyclic.bindsFreely {σ : Substitution} (h : σ.Acyclic) (t u : Term) :
    BindsFreely σ t u := by
  intro x v hends hne
  -- whichever side it comes from, the term to be bound is the end of a chain
  have hv : σ.IsEnd v := by
    rcases hends with ⟨_, hu⟩ | ⟨ht, _⟩
    · rw [← hu]
      exact h.isEnd_resolve u
    · rw [← ht]
      exact h.isEnd_resolve t
  obtain ⟨hocc, hbind⟩ := hv.bind_eq hne
  exact ⟨hocc, _, hbind⟩

/-- **Acyclic bindings are never held up.** Unifying a pair keeps them acyclic,
    so the next pair finds them as the first did. -/
theorem Substitution.Acyclic.unhindered (ts us : List Term) :
    ∀ {σ : Substitution}, σ.Acyclic → Unhindered σ ts us := by
  induction ts generalizing us with
  | nil => exact fun _ => trivial
  | cons t ts ih =>
    intro σ hσ
    cases us with
    | nil => trivial
    | cons u us => exact ⟨hσ.bindsFreely t u, fun τ hτ => ih us (unifyTerms_sound hσ hτ).1⟩

/-! ### The theorem -/

/-- **Unification computes most general unifiers.** It gives a substitution
    exactly when some assignment unifies the literals, what it gives is most
    general, and no check for occurrence ever strikes on the way. -/
theorem unify_computes_mostGeneral (l r : Literal) :
    ((∃ σ, unify l r = some σ) ↔ ∃ θ, Unifies θ l r) ∧
    (∀ σ, unify l r = some σ → σ.MostGeneral l r) ∧
    Unhindered {} l.args r.args :=
  ⟨exists_unify_iff, fun _ => mostGeneral_of_unify, acyclic_empty.unhindered l.args r.args⟩

/-- `P(x, y, x)` and `P(y, z, A)` share variables, and their unifier is a chain
    of three bindings. -/
theorem unify_computes_mostGeneral_chain :
    MostGeneral ⟨[("x", .var "y"), ("y", .var "z"), ("z", .const "A")]⟩
      ⟨"P", [.var "x", .var "y", .var "x"], false⟩
      ⟨"P", [.var "y", .var "z", .const "A"], true⟩ :=
  (unify_computes_mostGeneral _ _).2.1 _ (by decide +kernel)

end Refuter
