import Refuter.Proofs.Chain

/-! # Binding a name once more

Before a name is bound, the walk from its new term is followed through the bindings so
far, and the binding is refused if the walk *ends* at the name.

- **A free name.** A walk that comes to a free variable ends there, so looking at the end
  is enough: what is refused is exactly what would close a cycle.
- **A bound name.** A walk that comes to it goes on, and the check looks past it. The new
  binding takes the place of the old one, so from then on the walk returns to where it
  began.

**Key result.** Among acyclic substitutions a binding goes wrong exactly when its name is
bound already and the walk from its term passes the name (`bind_orderly_iff`).
-/

namespace Refuter

namespace Substitution

variable {σ : Substitution} {x : String} {t u w : Term} {n : Nat}

/-! ### Walks that pass a variable -/

/-- The walk from a term comes to the variable `x`, there to end or to go on. -/
inductive Passes (σ : Substitution) (x : String) : Term → Prop where
  /-- It starts there. -/
  | here : Passes σ x (.var x)
  /-- It comes there after a step. -/
  | further {y : String} {t : Term} (h : σ.bindings.get? y = some t) (rest : Passes σ x t) :
      Passes σ x (.var y)

/-- A walk passes the variable at which it ends. -/
theorem Leads.passes (h : σ.Leads n t w) (hw : w = .var x) : σ.Passes x t := by
  induction h with
  | const c => cases hw
  | free _ =>
    rw [hw]
    exact .here
  | bound h _ ih => exact .further h (ih hw)

/-- A walk that passes a free variable ends at it. -/
theorem Passes.resolve_eq (h : σ.Passes x t) (hx : σ.bindings.get? x = none) :
    σ.resolve t = .var x := by
  have hwalk : ∃ n, σ.Leads n t (.var x) := by
    induction h with
    | here => exact ⟨0, .free hx⟩
    | further hy _ ih =>
      obtain ⟨n, hn⟩ := ih
      exact ⟨n + 1, .bound hy hn⟩
  obtain ⟨n, hn⟩ := hwalk
  exact hn.resolve_eq

/-- From a free variable the walk passes no other. -/
theorem not_passes_of_get?_eq_none {y : String} (hne : y ≠ x)
    (hy : σ.bindings.get? y = none) : ¬ σ.Passes x (.var y) := by
  intro hpass
  have hvar := hpass
  generalize hstart : Term.var y = t at hvar
  cases hvar with
  | here => exact hne (Term.var.inj hstart)
  | further hbound _ =>
    rw [← Term.var.inj hstart, hy] at hbound
    cases hbound

/-- **What the check finds:** the name is free, and the walk from the term passes it. -/
theorem Acyclic.occurs_iff (h : σ.Acyclic) :
    σ.occurs x t = true ↔ σ.bindings.get? x = none ∧ σ.Passes x t := by
  unfold occurs occursIn
  rw [decide_eq_true_eq]
  constructor
  · intro hend
    obtain ⟨n, hwalk⟩ := h.leads_resolve t
    refine ⟨?_, hwalk.passes hend⟩
    apply IsEnd.get?_eq_none
    rw [← hend]
    exact hwalk.isEnd
  · intro hpass
    exact hpass.2.resolve_eq hpass.1

/-! ### A binding that replaces another -/

theorem bind_eq_ok (h : σ.occurs x t = false) : σ.bind x t = .ok ⟨σ.bindings.set x t⟩ := by
  unfold Substitution.bind
  rw [h]
  exact if_neg Bool.false_ne_true

/-- A walk that does not pass the name takes no notice of its new binding. -/
theorem Leads.set_of_not_passes (h : σ.Leads n t w) (hnot : ¬ σ.Passes x t) :
    Leads ⟨σ.bindings.set x u⟩ n t w := by
  -- every variable on the way is another one, so its binding is as it was
  have other : ∀ y, y ≠ x → Members.get? (σ.bindings.set x u) y = σ.bindings.get? y := by
    intro y hy
    exact Members.get?_set_of_ne σ.bindings u hy
  have start : ∀ y, ¬ σ.Passes x (.var y) → y ≠ x := by
    intro y hy heq
    rw [heq] at hy
    exact hy .here
  induction h with
  | const c => exact .const c
  | @free y hy =>
    apply Leads.free
    rw [other y (start y hnot)]
    exact hy
  | @bound y t w n hy _ ih =>
    have hrest : ¬ σ.Passes x t := fun hpass => hnot (.further hy hpass)
    refine .bound ?_ (ih hrest)
    rw [other y (start y hnot)]
    exact hy

/-- **No way back, no cycle:** all walks still end. They are as before up to the name, and
    from there they are the walk from its new term. -/
theorem Acyclic.set_of_not_passes (h : σ.Acyclic) (hnot : ¬ σ.Passes x u) :
    Acyclic ⟨σ.bindings.set x u⟩ := by
  obtain ⟨m, v, hterm⟩ := h u
  have hnew : Leads ⟨σ.bindings.set x u⟩ m u v := hterm.set_of_not_passes hnot
  have hname : Leads ⟨σ.bindings.set x u⟩ (m + 1) (.var x) v :=
    .bound (Members.get?_set_self ..) hnew
  intro t
  obtain ⟨n, w, hwalk⟩ := h t
  induction hwalk with
  | const c => exact ⟨0, _, .const c⟩
  | @free y hy =>
    by_cases hyx : y = x
    · rw [hyx]
      exact ⟨_, _, hname⟩
    · refine ⟨0, .var y, .free ?_⟩
      rw [Members.get?_set_of_ne σ.bindings u hyx]
      exact hy
  | @bound y t w n hy _ ih =>
    by_cases hyx : y = x
    · rw [hyx]
      exact ⟨_, _, hname⟩
    · obtain ⟨k, v', hrest⟩ := ih
      refine ⟨k + 1, v', .bound ?_ hrest⟩
      rw [Members.get?_set_of_ne σ.bindings u hyx]
      exact hy

/-- A walk that passed the name before still comes to it, and has less of its way left
    there. -/
theorem Passes.leads_set (h : σ.Passes x t) (hwalk : Leads ⟨σ.bindings.set x u⟩ n t w) :
    ∃ m, m ≤ n ∧ Leads ⟨σ.bindings.set x u⟩ m (.var x) w := by
  induction h generalizing n with
  | here => exact ⟨n, Nat.le_refl n, hwalk⟩
  | @further y t hy _ ih =>
    by_cases hyx : y = x
    · rw [hyx] at hwalk
      exact ⟨n, Nat.le_refl n, hwalk⟩
    · have hstep : Members.get? (σ.bindings.set x u) y = some t := by
        rw [Members.get?_set_of_ne σ.bindings u hyx]
        exact hy
      cases hwalk with
      | free hfree =>
        rw [hstep] at hfree
        cases hfree
      | bound hbound rest =>
        rw [hstep] at hbound
        cases hbound
        obtain ⟨m, hm, hback⟩ := ih rest
        exact ⟨m, Nat.le_succ_of_le hm, hback⟩

/-- **A way back is a cycle:** the walk from the name never ends. -/
theorem Passes.not_leads_set (h : σ.Passes x u) :
    ¬ Leads ⟨σ.bindings.set x u⟩ n (.var x) w := by
  intro hwalk
  have hself : Members.get? (σ.bindings.set x u) x = some u := Members.get?_set_self ..
  cases hwalk with
  | free hfree =>
    rw [hself] at hfree
    cases hfree
  | bound hbound rest =>
    rw [hself] at hbound
    cases hbound
    -- one step takes the walk to the term, and the term takes it back
    obtain ⟨m, hm, hback⟩ := h.leads_set rest
    obtain ⟨hlength, _⟩ := hback.unique (.bound hself rest)
    omega

theorem Acyclic.set_iff (h : σ.Acyclic) :
    Acyclic ⟨σ.bindings.set x u⟩ ↔ ¬ σ.Passes x u := by
  constructor
  · intro hnew hpass
    obtain ⟨n, w, hwalk⟩ := hnew (.var x)
    exact hpass.not_leads_set hwalk
  · exact h.set_of_not_passes

/-! ### The main result -/

/-- What is expected of the bindings of a substitution. -/
structure Orderly (σ : Substitution) : Prop where
  /-- Following them from any term comes to an end. -/
  acyclic : σ.Acyclic
  /-- Resolving reaches that end. -/
  ends : ∀ t, ∃ n, σ.Leads n t (σ.resolve t)
  /-- No name is bound to a term that resolves to the name. -/
  apart : ∀ x t, σ.bindings.get? x = some t → σ.resolve t ≠ .var x

theorem Acyclic.orderly (h : σ.Acyclic) : σ.Orderly := by
  refine ⟨h, h.leads_resolve, ?_⟩
  intro x t hbound heq
  -- where resolving ends, the variable is free
  have hend := h.isEnd_resolve t
  rw [heq] at hend
  rw [hend.get?_eq_none] at hbound
  cases hbound

/-- **When binding keeps a substitution orderly.** For an acyclic substitution, any name and
    any term, the binding is refused exactly when the name is free and the walk from the term
    passes it. It is refused or leaves the substitution orderly exactly when the name is
    not both bound already and passed by the walk from the term. -/
theorem bind_orderly_iff (h : σ.Acyclic) (x : String) (t : Term) :
    (σ.bind x t = .error (.occurs x t) ↔ σ.contains x = false ∧ σ.Passes x t) ∧
    ((σ.bind x t = .error (.occurs x t) ∨ ∃ τ, σ.bind x t = .ok τ ∧ τ.Orderly) ↔
      ¬ (σ.contains x = true ∧ σ.Passes x t)) := by
  have hfree : σ.contains x = false ↔ σ.bindings.get? x = none := by
    unfold contains
    rw [Option.isSome_eq_false_iff, Option.isNone_iff_eq_none]
  have hoccurs : σ.occurs x t = true ↔ σ.contains x = false ∧ σ.Passes x t := by
    rw [hfree]
    exact h.occurs_iff
  by_cases hocc : σ.occurs x t = true
  · have hbind : σ.bind x t = .error (.occurs x t) := by
      unfold Substitution.bind
      rw [if_pos hocc]
    have hname := hoccurs.1 hocc
    rw [hbind]
    refine ⟨⟨fun _ => hname, fun _ => rfl⟩, ?_, fun _ => .inl rfl⟩
    intro _ hbound
    rw [hname.1] at hbound
    cases hbound.1
  · rw [bind_eq_ok (Bool.eq_false_iff.2 hocc)]
    refine ⟨⟨fun herror => ?_, fun hname => absurd (hoccurs.2 hname) hocc⟩, ?_, ?_⟩
    · cases herror
    · intro hresult hname
      rcases hresult with herror | ⟨τ, hok, horderly⟩
      · cases herror
      · cases hok
        exact h.set_iff.1 horderly.acyclic hname.2
    · intro hnot
      refine .inr ⟨_, rfl, (h.set_iff.2 ?_).orderly⟩
      intro hpass
      cases hcontains : σ.contains x with
      | true => exact hnot ⟨hcontains, hpass⟩
      | false => exact hocc (hoccurs.2 ⟨hcontains, hpass⟩)

/-- The chain `x ↦ y, y ↦ A`. -/
def shortChain : Substitution :=
  ⟨[("x", .var "y"), ("y", .const "A")]⟩

theorem acyclic_shortChain : shortChain.Acyclic := by
  have hfirst : Acyclic ⟨[("x", .var "y")]⟩ :=
    acyclic_empty.set_of_not_passes (x := "x") (u := .var "y")
      (not_passes_of_get?_eq_none (by decide) rfl)
  refine hfirst.set_of_not_passes (x := "y") (u := .const "A") ?_
  intro hpass
  cases hpass

/-- The name `y` is bound already, but the walk from `z` does not pass it. -/
theorem bind_orderly_iff_shortChain :
    shortChain.Acyclic ∧ shortChain.contains "y" = true ∧
    ¬ shortChain.Passes "y" (.var "z") ∧
    ∃ τ, shortChain.bind "y" (.var "z") = .ok τ ∧ τ.Orderly := by
  have hnot : ¬ shortChain.Passes "y" (.var "z") :=
    not_passes_of_get?_eq_none (by decide) (by decide)
  obtain ⟨hrefused, hkept⟩ := bind_orderly_iff acyclic_shortChain "y" (.var "z")
  refine ⟨acyclic_shortChain, by decide, hnot, ?_⟩
  rcases hkept.2 fun h => hnot h.2 with herror | hok
  · exact absurd (hrefused.1 herror).2 hnot
  · exact hok

/-- **The exception is real:** from acyclic substitutions, a name that is bound to a constant
    is bound to itself, and the end of a chain is bound to its start. The walks from there
    never end. -/
theorem bind_closes_cycle :
    (Acyclic ⟨[("x", .const "A")]⟩ ∧
      Substitution.bind ⟨[("x", .const "A")]⟩ "x" (.var "x") = .ok ⟨[("x", .var "x")]⟩ ∧
      ∀ n w, ¬ Leads ⟨[("x", .var "x")]⟩ n (.var "x") w) ∧
    (shortChain.Acyclic ∧
      shortChain.bind "y" (.var "x") = .ok ⟨[("x", .var "y"), ("y", .var "x")]⟩ ∧
      ∀ n w, ¬ Leads ⟨[("x", .var "y"), ("y", .var "x")]⟩ n (.var "y") w) := by
  refine ⟨⟨?_, bind_eq_ok (by decide), ?_⟩, acyclic_shortChain, bind_eq_ok (by decide), ?_⟩
  · refine acyclic_empty.set_of_not_passes (x := "x") (u := .const "A") ?_
    intro hpass
    cases hpass
  · intro n w
    exact Passes.not_leads_set (σ := ⟨[("x", .const "A")]⟩) (x := "x") (u := .var "x") .here
  · intro n w
    have hback : shortChain.Passes "y" (.var "x") :=
      .further (show shortChain.bindings.get? "x" = some (.var "y") by decide) .here
    exact hback.not_leads_set

end Substitution

end Refuter
