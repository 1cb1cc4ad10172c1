import Mathlib.Data.List.Perm.Subperm
import Refuter.Substitution.Basic

/-! # Chains of bindings

Following the bindings of a substitution from a term is a walk: it either ends
at a constant or a free variable, or it goes on for ever. `Leads` says that it
ends, after how many steps, and where. A substitution is *acyclic* when every
walk ends.

**Key fact.** A walk that ends passes no variable twice, so it takes at most as
many steps as there are bindings (`Leads.le_size`). Hence `resolve`, which
looks no further than that, reaches the end of every walk of an acyclic
substitution.
-/

namespace Refuter

namespace Substitution

/-! ### Walks -/

/-- Following the bindings from the first term takes `n` steps and ends at the
    second. -/
inductive Leads (σ : Substitution) : Nat → Term → Term → Prop where
  /-- A constant is an end. -/
  | const (c : String) : Leads σ 0 (.const c) (.const c)
  /-- A free variable is an end. -/
  | free {x : String} (h : σ.bindings.get? x = none) : Leads σ 0 (.var x) (.var x)
  /-- A bound variable is left for its term. -/
  | bound {x : String} {t u : Term} {n : Nat} (h : σ.bindings.get? x = some t)
      (rest : Leads σ n t u) : Leads σ (n + 1) (.var x) u

/-- Every walk ends. -/
def Acyclic (σ : Substitution) : Prop :=
  ∀ t, ∃ n u, σ.Leads n t u

/-- A term where walks end. -/
def IsEnd (σ : Substitution) (t : Term) : Prop :=
  σ.Leads 0 t t

theorem acyclic_empty : Acyclic {} := by
  intro t
  cases t with
  | const c => exact ⟨0, _, .const c⟩
  | var x => exact ⟨0, _, .free rfl⟩

theorem Leads.isEnd {σ : Substitution} {n : Nat} {t u : Term} (h : σ.Leads n t u) :
    σ.IsEnd u := by
  induction h with
  | const c => exact .const c
  | free h => exact .free h
  | bound _ _ ih => exact ih

/-- **Walks are determined** by where they start. -/
theorem Leads.unique {σ : Substitution} {n m : Nat} {t u w : Term} (h : σ.Leads n t u)
    (h' : σ.Leads m t w) : n = m ∧ u = w := by
  induction h generalizing m w with
  | const c => cases h'; exact ⟨rfl, rfl⟩
  | free h =>
    cases h' with
    | free _ => exact ⟨rfl, rfl⟩
    | bound hb _ => rw [h] at hb; cases hb
  | bound h _ ih =>
    cases h' with
    | free hf => rw [h] at hf; cases hf
    | bound hb rest =>
      rw [h] at hb
      cases hb
      obtain ⟨rfl, rfl⟩ := ih rest
      exact ⟨rfl, rfl⟩

/-- The variables passed on the way: all bound, all different, and each no
    further from the end than the start is. -/
theorem Leads.exists_passed {σ : Substitution} {n : Nat} {t u : Term} (h : σ.Leads n t u) :
    ∃ names : List String, names.length = n ∧ names.Nodup ∧
      ∀ x ∈ names, x ∈ σ.bindings.map Prod.fst ∧ ∃ m, m ≤ n ∧ σ.Leads m (.var x) u := by
  induction h with
  | const c => exact ⟨[], rfl, List.nodup_nil, by simp⟩
  | free h => exact ⟨[], rfl, List.nodup_nil, by simp⟩
  | @bound x t u n h rest ih =>
    obtain ⟨names, hlen, hnodup, hpassed⟩ := ih
    -- passing `x` again later would give two walks from `x` of different lengths
    have hnew : x ∉ names := by
      intro hx
      obtain ⟨_, m, hm, hwalk⟩ := hpassed x hx
      obtain ⟨hn, _⟩ := hwalk.unique (.bound h rest)
      omega
    refine ⟨x :: names, by simp [hlen], List.nodup_cons.mpr ⟨hnew, hnodup⟩, ?_⟩
    intro y hy
    rcases List.mem_cons.mp hy with rfl | hy
    · exact ⟨List.mem_map.mpr ⟨_, mem_of_get? h, rfl⟩, n + 1, Nat.le_refl _, .bound h rest⟩
    · obtain ⟨hkey, m, hm, hwalk⟩ := hpassed y hy
      exact ⟨hkey, m, Nat.le_succ_of_le hm, hwalk⟩

/-- **A walk is short:** it takes at most one step for each binding. -/
theorem Leads.le_size {σ : Substitution} {n : Nat} {t u : Term} (h : σ.Leads n t u) :
    n ≤ σ.size := by
  obtain ⟨names, hlen, hnodup, hpassed⟩ := h.exists_passed
  have hsub : names ⊆ σ.bindings.map Prod.fst := fun x hx => (hpassed x hx).1
  -- different names among the keys are no more than the bindings
  have hle := (hnodup.subperm hsub).length_le
  rw [hlen, List.length_map] at hle
  exact hle

theorem Leads.follow_eq {σ : Substitution} {n : Nat} {t u : Term} (h : σ.Leads n t u) :
    ∀ fuel, n ≤ fuel → σ.follow fuel t = u := by
  induction h with
  | const c =>
    intro fuel _
    cases fuel <;> rfl
  | free h =>
    intro fuel _
    cases fuel with
    | zero => rfl
    | succ fuel => simp only [follow, h]
  | bound h _ ih =>
    intro fuel hfuel
    cases fuel with
    | zero => omega
    | succ fuel =>
      simp only [follow, h]
      exact ih fuel (Nat.le_of_succ_le_succ hfuel)

/-- **`resolve` reaches the end** of a walk that has one. -/
theorem Leads.resolve_eq {σ : Substitution} {n : Nat} {t u : Term} (h : σ.Leads n t u) :
    σ.resolve t = u :=
  h.follow_eq σ.size h.le_size

/-! ### Resolving in an acyclic substitution -/

theorem Acyclic.leads_resolve {σ : Substitution} (h : σ.Acyclic) (t : Term) :
    ∃ n, σ.Leads n t (σ.resolve t) := by
  obtain ⟨n, u, hwalk⟩ := h t
  exact ⟨n, by rw [hwalk.resolve_eq]; exact hwalk⟩

theorem Acyclic.isEnd_resolve {σ : Substitution} (h : σ.Acyclic) (t : Term) :
    σ.IsEnd (σ.resolve t) := by
  obtain ⟨n, hwalk⟩ := h.leads_resolve t
  exact hwalk.isEnd

theorem IsEnd.resolve_eq {σ : Substitution} {t : Term} (h : σ.IsEnd t) : σ.resolve t = t :=
  Leads.resolve_eq h

/-- A free variable is where the walk from it ends. -/
theorem IsEnd.get?_eq_none {σ : Substitution} {x : String} (h : σ.IsEnd (.var x)) :
    σ.bindings.get? x = none := by
  cases h with
  | free h => exact h

@[simp] theorem resolve_const (σ : Substitution) (c : String) :
    σ.resolve (.const c) = .const c :=
  Leads.resolve_eq (.const c)

/-! ### Binding a free variable -/

/-- **One new binding** takes the walks that ended at the bound variable one
    step further, and leaves the others alone. -/
theorem Leads.set {σ : Substitution} {x : String} {u : Term} (hx : σ.bindings.get? x = none)
    (hu : σ.IsEnd u) (hne : u ≠ .var x) {n : Nat} {t w : Term} (h : σ.Leads n t w) :
    ∃ m, Leads ⟨σ.bindings.set x u⟩ m t (if w = .var x then u else w) := by
  have other : ∀ y, y ≠ x → Members.get? (σ.bindings.set x u) y = σ.bindings.get? y :=
    fun y hy => Members.get?_set_of_ne σ.bindings u hy
  -- the new term is still an end: it is not the variable that was bound
  have hend : IsEnd ⟨σ.bindings.set x u⟩ u := by
    cases hu with
    | const c => exact .const c
    | @free y hy =>
      have hyx : y ≠ x := fun e => hne (by rw [e])
      exact .free (by rw [other y hyx]; exact hy)
  induction h with
  | const c => exact ⟨0, by simpa using Leads.const c⟩
  | @free y hy =>
    by_cases hyx : y = x
    · -- the walk ended at the variable that is bound now, and goes on to the new end
      subst hyx
      exact ⟨1, by simpa using Leads.bound (Members.get?_set_self ..) hend⟩
    · have hfree : Members.get? (σ.bindings.set x u) y = none := by rw [other y hyx]; exact hy
      exact ⟨0, by simpa [hyx] using Leads.free hfree⟩
  | @bound y t w n hy rest ih =>
    obtain ⟨m, hm⟩ := ih
    have hyx : y ≠ x := by
      rintro rfl
      rw [hx] at hy
      cases hy
    exact ⟨m + 1, .bound (by rw [other y hyx]; exact hy) hm⟩

section OneBinding

variable {σ : Substitution} {x : String} {u : Term}

/-- Binding a free variable to the end of another walk closes no cycle. -/
theorem Acyclic.set (h : σ.Acyclic) (hx : σ.bindings.get? x = none) (hu : σ.IsEnd u)
    (hne : u ≠ .var x) : Acyclic ⟨σ.bindings.set x u⟩ := by
  intro t
  obtain ⟨n, w, hwalk⟩ := h t
  obtain ⟨m, hm⟩ := hwalk.set hx hu hne
  exact ⟨m, _, hm⟩

theorem Acyclic.resolve_set (h : σ.Acyclic) (hx : σ.bindings.get? x = none) (hu : σ.IsEnd u)
    (hne : u ≠ .var x) (t : Term) :
    resolve ⟨σ.bindings.set x u⟩ t = if σ.resolve t = .var x then u else σ.resolve t := by
  obtain ⟨n, hwalk⟩ := h.leads_resolve t
  obtain ⟨m, hm⟩ := hwalk.set hx hu hne
  exact hm.resolve_eq

end OneBinding

end Substitution

end Refuter
