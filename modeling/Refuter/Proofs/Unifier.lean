import Refuter.Proofs.Chain
import Refuter.Substitution.Unifier

/-! # What unification solves

Unification is compared with *solutions*: maps of terms into any set of values
that give the two sides the same value. Terms, domain elements and ground
terms all serve as values.

- **Sound.** The unifier itself is a solution (`unify_sound`).
- **Most general.** Every solution that tells constants apart is a solution
  only because the unifier is one: it *absorbs* the unifier, that is, it does
  not notice whether the unifier was applied first (`unify_of_solution`).

The invariant of the walk along the argument lists is that the bindings so far
are acyclic; with it the check for occurrence never strikes.
-/

namespace Refuter

namespace Substitution

/-! ### Absorption -/

/-- Applying `σ` first makes no difference to `f`. -/
def Absorbs {α : Type*} (σ : Substitution) (f : Term → α) : Prop :=
  ∀ t, f (σ.resolve t) = f t

theorem absorbs_empty {α : Type*} (f : Term → α) : Absorbs {} f :=
  fun _ => rfl

/-- **Resolving twice is resolving once.** -/
theorem Acyclic.absorbs_resolve {σ : Substitution} (h : σ.Acyclic) : σ.Absorbs σ.resolve :=
  fun t => (h.isEnd_resolve t).resolve_eq

/-- What absorbs a later substitution absorbs an earlier one. -/
theorem Absorbs.trans {α : Type*} {σ τ : Substitution} {f : Term → α} (h : τ.Absorbs f)
    (hτ : σ.Absorbs τ.resolve) : σ.Absorbs f := by
  intro t
  calc f (σ.resolve t) = f (τ.resolve (σ.resolve t)) := (h _).symm
    _ = f (τ.resolve t) := by rw [hτ t]
    _ = f t := h t

/-- A map that gives the variable and its new term one value absorbs the
    binding. -/
theorem Acyclic.absorbs_set {α : Type*} {σ : Substitution} {x : String} {u : Term} {f : Term → α}
    (h : σ.Acyclic) (hx : σ.bindings.get? x = none) (hu : σ.IsEnd u) (hne : u ≠ .var x)
    (hf : σ.Absorbs f) (heq : f u = f (.var x)) : Absorbs ⟨σ.bindings.set x u⟩ f := by
  intro t
  rw [h.resolve_set hx hu hne t]
  split
  · rename_i hend
    rw [heq, ← hend]
    exact hf t
  · exact hf t

/-- **The check for occurrence lets ends through:** an end other than the
    variable does not lead back to it, so it can be bound. -/
theorem IsEnd.bind_eq {σ : Substitution} {x : String} {v : Term} (hv : σ.IsEnd v)
    (hne : v ≠ .var x) :
    σ.occurs x v = false ∧ σ.bind x v = .ok ⟨σ.bindings.set x v⟩ := by
  have hocc : σ.occurs x v = false := by
    simp only [occurs, occursIn, hv.resolve_eq, decide_eq_false_iff_not]
    exact hne
  refine ⟨hocc, ?_⟩
  simp only [Substitution.bind, hocc]
  rfl

end Substitution

open Substitution

/-! ### One pair of terms -/

/-- **What unifying two terms can do:** nothing, if they resolve to the same
    term; bind one resolved term to the other, if that is a variable; or fail
    on two different constants. -/
theorem unifyTerms_cases {σ : Substitution} (hσ : σ.Acyclic) (t u : Term) :
    (σ.resolve t = σ.resolve u ∧ unifyTerms σ t u = some σ) ∨
    (∃ x v, σ.IsEnd (.var x) ∧ σ.IsEnd v ∧ v ≠ .var x ∧
      (σ.resolve t = .var x ∧ σ.resolve u = v ∨ σ.resolve t = v ∧ σ.resolve u = .var x) ∧
      unifyTerms σ t u = some ⟨σ.bindings.set x v⟩) ∨
    (∃ a b, a ≠ b ∧ σ.resolve t = .const a ∧ σ.resolve u = .const b ∧
      unifyTerms σ t u = none) := by
  have ht := hσ.isEnd_resolve t
  have hu := hσ.isEnd_resolve u
  unfold unifyTerms
  dsimp only
  generalize σ.resolve t = t' at ht ⊢
  generalize σ.resolve u = u' at hu ⊢
  by_cases heq : t' = u'
  · exact .inl ⟨heq, by rw [if_pos heq]⟩
  · rw [if_neg heq]
    refine .inr ?_
    cases t' with
    | var x =>
      have hne : u' ≠ .var x := fun e => heq e.symm
      obtain ⟨hocc, hbind⟩ := hu.bind_eq hne
      refine .inl ⟨x, u', ht, hu, hne, .inl ⟨rfl, rfl⟩, ?_⟩
      simp only [hocc, hbind]
      rfl
    | const a =>
      cases u' with
      | var y =>
        obtain ⟨hocc, hbind⟩ := ht.bind_eq heq
        refine .inl ⟨y, .const a, hu, ht, heq, .inr ⟨rfl, rfl⟩, ?_⟩
        simp only [hocc, hbind]
        rfl
      | const b => exact .inr ⟨a, b, fun e => heq (by rw [e]), rfl, rfl, rfl⟩

/-- **One pair, sound:** the extended bindings are acyclic, give the two terms
    one value and refine the bindings before. -/
theorem unifyTerms_sound {σ τ : Substitution} (hσ : σ.Acyclic) {t u : Term}
    (h : unifyTerms σ t u = some τ) :
    τ.Acyclic ∧ τ.resolve t = τ.resolve u ∧ σ.Absorbs τ.resolve := by
  rcases unifyTerms_cases hσ t u with
    ⟨heq, hs⟩ | ⟨x, v, hx, hv, hne, hends, hs⟩ | ⟨_, _, _, _, _, hs⟩
  · rw [hs] at h
    cases h
    exact ⟨hσ, heq, hσ.absorbs_resolve⟩
  · rw [hs] at h
    cases h
    have hfree := hx.get?_eq_none
    -- walks that ended at `x` end at `v` now, and no others change
    have value := hσ.resolve_set hfree hv hne
    refine ⟨hσ.set hfree hv hne, ?_, ?_⟩
    · rw [value t, value u]
      rcases hends with ⟨ht, hu⟩ | ⟨ht, hu⟩
      · rw [ht, hu, if_pos rfl, if_neg hne]
      · rw [ht, hu, if_pos rfl, if_neg hne]
    · intro w
      rw [value, value, hσ.absorbs_resolve w]
  · rw [hs] at h
    cases h

/-- **One pair, most general:** a solution that absorbs the bindings so far and
    tells constants apart finds the pair unified, and absorbs the result. -/
theorem unifyTerms_of_solution {α : Type*} {f : Term → α}
    (hconst : ∀ a b, f (.const a) = f (.const b) → a = b) {σ : Substitution} (hσ : σ.Acyclic)
    (hf : σ.Absorbs f) {t u : Term} (heq : f t = f u) :
    ∃ τ, unifyTerms σ t u = some τ ∧ τ.Absorbs f := by
  have hends : f (σ.resolve t) = f (σ.resolve u) := by rw [hf t, hf u, heq]
  rcases unifyTerms_cases hσ t u with
    ⟨_, hs⟩ | ⟨x, v, hx, hv, hne, hxv, hs⟩ | ⟨a, b, hab, ht, hu, _⟩
  · exact ⟨σ, hs, hf⟩
  · refine ⟨_, hs, hσ.absorbs_set hx.get?_eq_none hv hne hf ?_⟩
    rcases hxv with ⟨ht, hu⟩ | ⟨ht, hu⟩
    · rw [ht, hu] at hends
      exact hends.symm
    · rw [ht, hu] at hends
      exact hends
  · -- a solution would give two constants one value
    rw [ht, hu] at hends
    exact absurd (hconst a b hends) hab

/-! ### Argument lists -/

theorem unifyArgs_sound (ts us : List Term) :
    ∀ {σ τ : Substitution}, σ.Acyclic → ts.length = us.length → unifyArgs σ ts us = some τ →
      τ.Acyclic ∧ ts.map τ.resolve = us.map τ.resolve ∧ σ.Absorbs τ.resolve := by
  induction ts generalizing us with
  | nil =>
    intro σ τ hσ hlen h
    obtain rfl : us = [] := List.length_eq_zero_iff.mp hlen.symm
    obtain rfl : σ = τ := by simpa [unifyArgs] using h
    exact ⟨hσ, rfl, hσ.absorbs_resolve⟩
  | cons t ts ih =>
    intro σ τ hσ hlen h
    cases us with
    | nil => simp at hlen
    | cons u us =>
      simp only [unifyArgs] at h
      split at h
      · cases h
      · rename_i ρ hρ
        obtain ⟨hρa, htu, hσρ⟩ := unifyTerms_sound hσ hρ
        obtain ⟨hτ, hmap, hρτ⟩ := ih us hρa (by simpa using hlen) h
        refine ⟨hτ, ?_, hρτ.trans hσρ⟩
        -- the pair stays unified, because the rest refines its bindings
        have head : τ.resolve t = τ.resolve u := by
          rw [← hρτ t, ← hρτ u, htu]
        rw [List.map_cons, List.map_cons, head, hmap]

theorem unifyArgs_of_solution {α : Type*} {f : Term → α}
    (hconst : ∀ a b, f (.const a) = f (.const b) → a = b) (ts us : List Term) :
    ∀ {σ : Substitution}, σ.Acyclic → σ.Absorbs f → ts.map f = us.map f →
      ∃ τ, unifyArgs σ ts us = some τ ∧ τ.Absorbs f := by
  induction ts generalizing us with
  | nil =>
    intro σ _ hf _
    exact ⟨σ, by cases us <;> rfl, hf⟩
  | cons t ts ih =>
    intro σ hσ hf hmap
    cases us with
    | nil => simp at hmap
    | cons u us =>
      rw [List.map_cons, List.map_cons, List.cons.injEq] at hmap
      obtain ⟨ρ, hρ, hfρ⟩ := unifyTerms_of_solution hconst hσ hf hmap.1
      obtain ⟨hρa, _, _⟩ := unifyTerms_sound hσ hρ
      -- the solution absorbs the bindings so far, so it also solves the rest under them
      obtain ⟨τ, hτ, hfτ⟩ := ih us hρa hfρ hmap.2
      exact ⟨τ, by simp only [unifyArgs, hρ]; exact hτ, hfτ⟩

/-! ### Literals -/

/-- **Soundness.** Under the unifier the two literals have the same atom. -/
theorem unify_sound {l r : Literal} {σ : Substitution} (h : unify l r = some σ) :
    σ.Acyclic ∧ l.name = r.name ∧ l.args.map σ.resolve = r.args.map σ.resolve := by
  unfold unify at h
  split at h
  · rename_i hshape
    obtain ⟨hσ, hmap, _⟩ := unifyArgs_sound l.args r.args acyclic_empty hshape.2 h
    exact ⟨hσ, hshape.1, hmap⟩
  · cases h

/-- **Generality.** Every solution that tells constants apart finds the
    literals unified, and absorbs the unifier. -/
theorem unify_of_solution {α : Type*} {f : Term → α}
    (hconst : ∀ a b, f (.const a) = f (.const b) → a = b) {l r : Literal}
    (hname : l.name = r.name) (hargs : l.args.map f = r.args.map f) :
    ∃ σ, unify l r = some σ ∧ σ.Absorbs f := by
  have harity : l.arity = r.arity := by
    have hlen := congrArg List.length hargs
    rw [List.length_map, List.length_map] at hlen
    exact hlen
  obtain ⟨σ, hσ, hf⟩ := unifyArgs_of_solution hconst l.args r.args acyclic_empty
    (absorbs_empty f) hargs
  exact ⟨σ, by rw [unify, if_pos ⟨hname, harity⟩]; exact hσ, hf⟩

/-! ### Names are bound once -/

theorem unifyArgs_nodup (ts us : List Term) : ∀ {σ τ : Substitution}, σ.Acyclic →
    (σ.bindings.map (·.1)).Nodup → unifyArgs σ ts us = some τ →
      (τ.bindings.map (·.1)).Nodup := by
  induction ts generalizing us with
  | nil =>
    intro σ τ _ hn h
    obtain rfl : σ = τ := by simpa [unifyArgs] using h
    exact hn
  | cons t ts ih =>
    intro σ τ hσ hn h
    cases us with
    | nil =>
      obtain rfl : σ = τ := by simpa [unifyArgs] using h
      exact hn
    | cons u us =>
      simp only [unifyArgs] at h
      split at h
      · cases h
      · rename_i ρ hρ
        apply ih us (unifyTerms_sound hσ hρ).1 _ h
        rcases unifyTerms_cases hσ t u with ⟨_, hs⟩ | ⟨x, v, _, _, _, _, hs⟩ | ⟨_, _, _, _, _, hs⟩
        · rw [hs] at hρ
          cases hρ
          exact hn
        · rw [hs] at hρ
          cases hρ
          exact Members.nodup_set hn x v
        · rw [hs] at hρ
          cases hρ

/-- **A unifier binds each name once.** -/
theorem unify_nodup {l r : Literal} {σ : Substitution} (h : unify l r = some σ) :
    (σ.bindings.map (·.1)).Nodup := by
  unfold unify at h
  split at h
  · exact unifyArgs_nodup l.args r.args acyclic_empty List.nodup_nil h
  · cases h

end Refuter
