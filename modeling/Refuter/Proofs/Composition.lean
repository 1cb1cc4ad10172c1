import Mathlib.Logic.Relation
import Mathlib.Order.WellFoundedSet
import Refuter.Proofs.Rebinding
import Refuter.Substitution.Subject

/-! # Composing substitutions

The composite of `σ` and `τ` has the terms of `σ`, with `τ` applied, and the bindings of `τ` for
the names that `σ` leaves free. It should do what `σ` does and then what `τ` does.

Bindings are followed to their ends, and so are those of the composite. A walk that would be
over after `σ` and `τ` goes on where it has come back to a name of `σ`.

- **Names of the composite** are bound as one expects (`get?_compose_of_bound`,
  `get?_compose_of_free`).
- **Cycles.** The composite may bind a name of `σ` to another name of `σ`, one hop further
  (`Hop`). It is acyclic exactly when hops never lead back (`Acyclic.compose_iff`).
- **Ends.** The composite goes where it should exactly when each of its bindings, on its own,
  leaves the destination unchanged (`Fits`).

**Key result.** For acyclic `σ` and `τ` the composite acts as `σ` followed by `τ` if and only if
their bindings fit (`compose_acts_iff`).
-/

namespace Refuter

namespace Substitution

variable {σ τ : Substitution} {x y : String} {t w : Term} {n : Nat}

/-! ### The bindings of a composite -/

theorem contains_eq_false : σ.contains x = false ↔ σ.bindings.get? x = none := by
  unfold contains
  rw [Option.isSome_eq_false_iff, Option.isNone_iff_eq_none]

theorem get?_mapTerms (members : Members Term) (f : Term → Term) (x : String) :
    Members.get? (members.map fun b => (b.1, f b.2)) x = (Members.get? members x).map f := by
  induction members with
  | nil => rfl
  | cons m rest ih =>
    obtain ⟨name, t⟩ := m
    simp only [Members.get?, List.map_cons, List.lookup_cons] at ih ⊢
    split
    · rfl
    · exact ih

theorem get?_filter_of_kept (members : Members Term) (keep : String → Bool) (hx : keep x = true) :
    Members.get? (members.filter fun b => keep b.1) x = Members.get? members x := by
  induction members with
  | nil => rfl
  | cons m rest ih =>
    obtain ⟨name, t⟩ := m
    simp only [Members.get?, List.filter_cons, List.lookup_cons] at ih ⊢
    by_cases hname : x = name
    · rw [← hname, hx]
      simp
    · have hne : (x == name) = false := beq_false_of_ne hname
      split
      · rw [List.lookup_cons, hne]
        exact ih
      · rw [hne]
        exact ih

theorem get?_compose (σ τ : Substitution) (x : String) :
    (σ.compose τ).bindings.get? x = ((σ.bindings.get? x).map τ.resolve).or
      (Members.get? (τ.bindings.filter fun b => !σ.contains b.1) x) := by
  rw [← get?_mapTerms]
  exact List.lookup_append

theorem get?_compose_of_bound (h : σ.bindings.get? x = some t) :
    (σ.compose τ).bindings.get? x = some (τ.resolve t) := by
  rw [get?_compose, h]
  rfl

theorem get?_compose_of_free (h : σ.bindings.get? x = none) :
    (σ.compose τ).bindings.get? x = τ.bindings.get? x := by
  have hkept : (!σ.contains x) = true := by
    rw [contains_eq_false.2 h]
    rfl
  rw [get?_compose, h, get?_filter_of_kept τ.bindings (fun name => !σ.contains name) hkept]
  rfl

/-! ### Cycles of a composite -/

/-- A walk from a bound name goes on from its term. -/
theorem Leads.rest (h : σ.Leads n (.var x) w) (hx : σ.bindings.get? x = some t) :
    ∃ m, m < n ∧ σ.Leads m t w := by
  cases h with
  | free hfree =>
    rw [hx] at hfree
    cases hfree
  | bound hbound rest =>
    rw [hx] at hbound
    cases hbound
    exact ⟨_, Nat.lt_succ_self _, rest⟩

/-- Steps from variable to variable bring a walk closer to its end. -/
theorem Leads.lt_of_steps
    (steps : Relation.TransGen (fun x y => σ.bindings.get? x = some (.var y)) x y)
    (h : σ.Leads n (.var x) w) : ∃ m, m < n ∧ σ.Leads m (.var y) w := by
  induction steps with
  | single hstep => exact h.rest hstep
  | tail _ hstep ih =>
    obtain ⟨m, hm, hwalk⟩ := ih
    obtain ⟨k, hk, hrest⟩ := hwalk.rest hstep
    exact ⟨k, Nat.lt_trans hk hm, hrest⟩

theorem Acyclic.not_steps (h : σ.Acyclic) (x : String) :
    ¬Relation.TransGen (fun x y => σ.bindings.get? x = some (.var y)) x x := by
  intro steps
  obtain ⟨n, w, hwalk⟩ := h (.var x)
  obtain ⟨m, hlt, hback⟩ := hwalk.lt_of_steps steps
  obtain ⟨rfl, _⟩ := hback.unique hwalk
  exact Nat.lt_irrefl _ hlt

/-- The composite binds the name `x` of `σ` to a name of `σ`. -/
def Hop (σ τ : Substitution) (x y : String) : Prop :=
  ∃ t, σ.bindings.get? x = some t ∧ τ.resolve t = .var y ∧ σ.contains y = true

theorem Hop.get? (h : Hop σ τ x y) : (σ.compose τ).bindings.get? x = some (.var y) := by
  obtain ⟨t, hbound, hend, _⟩ := h
  rw [get?_compose_of_bound hbound, hend]

/-- There are finitely many names to hop to, so hops that never lead back come to an end. -/
theorem wellFoundedOn_hop (hreturn : ∀ x, ¬Relation.TransGen (Hop σ τ) x x) :
    {x | x ∈ σ.bindings.map Prod.fst}.WellFoundedOn
      fun y x => Relation.TransGen (Hop σ τ) x y := by
  have : IsStrictOrder String fun y x => Relation.TransGen (Hop σ τ) x y :=
    { irrefl := hreturn, trans := fun _ _ _ h h' => h'.trans h }
  exact (List.finite_toSet (σ.bindings.map Prod.fst)).wellFoundedOn

/-- **No way back, no cycle:** from a name of `σ` the walk of the composite ends. -/
theorem Acyclic.leads_compose_of_bound (hτ : τ.Acyclic)
    (hreturn : ∀ x, ¬Relation.TransGen (Hop σ τ) x x) (hx : σ.contains x = true) :
    ∃ n w, (σ.compose τ).Leads n (.var x) w := by
  have hname : ∀ {x t}, σ.bindings.get? x = some t → x ∈ σ.bindings.map Prod.fst := by
    intro x t h
    exact List.mem_map.2 ⟨_, mem_of_get? h, rfl⟩
  obtain ⟨t, ht⟩ := Option.isSome_iff_exists.1 hx
  -- the induction is on the names to which the walk can still hop
  refine (wellFoundedOn_hop hreturn).induction (P := fun x => ∀ t, σ.bindings.get? x = some t →
    ∃ n w, (σ.compose τ).Leads n (.var x) w) (hname ht) ?_ t ht
  intro x _ ih t ht
  have hstep : (σ.compose τ).bindings.get? x = some (τ.resolve t) := get?_compose_of_bound ht
  have hend := hτ.isEnd_resolve t
  cases hu : τ.resolve t with
  | const c =>
    rw [hu] at hstep
    exact ⟨1, _, .bound hstep (.const c)⟩
  | var y =>
    rw [hu] at hstep hend
    cases hy : σ.bindings.get? y with
    | none =>
      -- the walk has come to its end: both leave the variable free
      refine ⟨1, .var y, .bound hstep (.free ?_)⟩
      rw [get?_compose_of_free hy]
      exact hend.get?_eq_none
    | some v =>
      have hop : Hop σ τ x y := ⟨t, ht, hu, Option.isSome_iff_exists.2 ⟨v, hy⟩⟩
      obtain ⟨n, w, hwalk⟩ := ih y (hname hy) (.single hop) v hy
      exact ⟨n + 1, w, .bound hstep hwalk⟩

/-- **When a composite is acyclic:** hops never lead back to where they started. -/
theorem Acyclic.compose_iff (hτ : τ.Acyclic) :
    (σ.compose τ).Acyclic ↔ ∀ x, ¬Relation.TransGen (Hop σ τ) x x := by
  constructor
  · intro h x hops
    exact h.not_steps x (Relation.TransGen.mono (fun _ _ => Hop.get?) _ _ hops)
  · intro hreturn t
    obtain ⟨n, w, hwalk⟩ := hτ t
    -- a walk of the composite is one of `τ` until it meets a name of `σ`
    induction hwalk with
    | const c => exact ⟨0, _, .const c⟩
    | @free x hfree =>
      cases hx : σ.contains x with
      | true => exact hτ.leads_compose_of_bound hreturn hx
      | false =>
        refine ⟨0, .var x, .free ?_⟩
        rw [get?_compose_of_free (contains_eq_false.1 hx)]
        exact hfree
    | @bound x t w n hbound _ ih =>
      cases hx : σ.contains x with
      | true => exact hτ.leads_compose_of_bound hreturn hx
      | false =>
        obtain ⟨m, v, hrest⟩ := ih
        refine ⟨m + 1, v, .bound ?_ hrest⟩
        rw [get?_compose_of_free (contains_eq_false.1 hx)]
        exact hbound

/-! ### Where a composite leads -/

/-- First the end of the walk of `σ`, then from there the end of the walk of `τ`. -/
def thenResolve (σ τ : Substitution) (t : Term) : Term :=
  τ.resolve (σ.resolve t)

theorem resolve_of_free (h : σ.bindings.get? x = none) : σ.resolve (.var x) = .var x :=
  Leads.resolve_eq (.free h)

/-- A walk may begin one step later. -/
theorem Acyclic.resolve_of_bound (hσ : σ.Acyclic) (h : σ.bindings.get? x = some t) :
    σ.resolve (.var x) = σ.resolve t := by
  obtain ⟨n, hwalk⟩ := hσ.leads_resolve t
  exact Leads.resolve_eq (.bound h hwalk)

/-- **The bindings of two substitutions fit:** no binding of the composite changes where the
    first substitution, followed by the second, arrives. -/
structure Fits (σ τ : Substitution) : Prop where
  /-- The hops of the composite never lead back. -/
  noReturn : ∀ x, ¬Relation.TransGen (Hop σ τ) x x
  /-- For a term of the first, it makes no difference that the second is applied already. -/
  first : ∀ x t, σ.bindings.get? x = some t →
    σ.thenResolve τ (τ.resolve t) = σ.thenResolve τ t
  /-- For a term of the second, bound to a name that the first leaves free, it makes no
      difference that the first is applied once more. -/
  second : ∀ x t, σ.bindings.get? x = none → τ.bindings.get? x = some t →
    σ.thenResolve τ t = τ.resolve t

/-- **The composite acts** as the first substitution followed by the second. -/
structure Acts (σ τ : Substitution) : Prop where
  /-- Its walks end. -/
  acyclic : (σ.compose τ).Acyclic
  /-- On every term, literal and clause it does what the two do. -/
  applies : ∀ s : Subject, s.apply (σ.compose τ) = (s.apply σ).bind (Subject.apply τ)

/-- Literals and clauses are treated term by term. -/
theorem apply_compose_iff :
    (∀ s : Subject, s.apply (σ.compose τ) = (s.apply σ).bind (Subject.apply τ)) ↔
      ∀ t, (σ.compose τ).resolve t = σ.thenResolve τ t := by
  constructor
  · intro h t
    have hterm : Except.ok (Subject.term ((σ.compose τ).resolve t))
        = Except.ok (ε := Error) (Subject.term (τ.resolve (σ.resolve t))) := h (.term t)
    exact Subject.term.inj (Except.ok.inj hterm)
  · intro h
    have hliteral : ∀ l, (σ.compose τ).applyLiteral l = τ.applyLiteral (σ.applyLiteral l) := by
      intro l
      have hargs : l.args.map (σ.compose τ).resolve = (l.args.map σ.resolve).map τ.resolve := by
        rw [List.map_map]
        exact List.map_congr_left fun t _ => h t
      simp only [applyLiteral, Literal.mapArgs, hargs]
    intro s
    cases s with
    | term t => exact congrArg (fun t => Except.ok (Subject.term t)) (h t)
    | literal l => exact congrArg (fun l => Except.ok (Subject.literal l)) (hliteral l)
    | clause c =>
      have hclause : (σ.compose τ).apply c.toClause = τ.apply (σ.apply c.toClause) := by
        simp only [apply, List.map_map]
        congr 1
        exact List.map_congr_left fun l _ => hliteral l
      show Except.ok (Subject.clause { (σ.compose τ).apply c.toClause with id := c.id })
        = .ok (.clause { τ.apply (σ.apply c.toClause) with id := c.id })
      rw [hclause]
    | other value => rfl

/-- A walk of fitting bindings arrives where it should. -/
theorem Fits.resolve_compose (h : σ.Fits τ) (hσ : σ.Acyclic) (hτ : τ.Acyclic) (t : Term) :
    (σ.compose τ).resolve t = σ.thenResolve τ t := by
  obtain ⟨n, hwalk⟩ := (hτ.compose_iff.2 h.noReturn).leads_resolve t
  generalize (σ.compose τ).resolve t = w at hwalk
  -- backwards along the walk: no step changes the destination
  induction hwalk with
  | const c => simp [thenResolve]
  | @free x hfree =>
    cases hx : σ.bindings.get? x with
    | some t =>
      rw [get?_compose_of_bound hx] at hfree
      cases hfree
    | none =>
      rw [get?_compose_of_free hx] at hfree
      rw [thenResolve, resolve_of_free hx, resolve_of_free hfree]
  | @bound x u w n hbound _ ih =>
    rw [ih]
    cases hx : σ.bindings.get? x with
    | some t =>
      rw [get?_compose_of_bound hx] at hbound
      obtain rfl := Option.some.inj hbound
      rw [h.first x t hx, thenResolve, thenResolve, hσ.resolve_of_bound hx]
    | none =>
      rw [get?_compose_of_free hx] at hbound
      rw [h.second x u hx hbound, thenResolve, resolve_of_free hx, hτ.resolve_of_bound hbound]

/-- Every binding of a composite that acts as it should fits. -/
theorem Acts.fits (h : σ.Acts τ) (hσ : σ.Acyclic) (hτ : τ.Acyclic) : σ.Fits τ := by
  have hends := apply_compose_iff.1 h.applies
  refine ⟨hτ.compose_iff.1 h.acyclic, ?_, ?_⟩
  · intro x t hx
    calc σ.thenResolve τ (τ.resolve t)
        = (σ.compose τ).resolve (τ.resolve t) := (hends _).symm
      _ = (σ.compose τ).resolve (.var x) :=
          (h.acyclic.resolve_of_bound (get?_compose_of_bound hx)).symm
      _ = σ.thenResolve τ (.var x) := hends _
      _ = σ.thenResolve τ t := congrArg τ.resolve (hσ.resolve_of_bound hx)
  · intro x t hx hbound
    have hstep : (σ.compose τ).bindings.get? x = some t := by
      rw [get?_compose_of_free hx]
      exact hbound
    calc σ.thenResolve τ t
        = (σ.compose τ).resolve t := (hends t).symm
      _ = (σ.compose τ).resolve (.var x) := (h.acyclic.resolve_of_bound hstep).symm
      _ = σ.thenResolve τ (.var x) := hends _
      _ = τ.resolve (.var x) := congrArg τ.resolve (resolve_of_free hx)
      _ = τ.resolve t := hτ.resolve_of_bound hbound

/-! ### A condition that can be read off the names -/

/-- The second substitution binds nothing to a name of the first, and it binds no name at which a
    binding of the first is continued by another of the first. -/
structure Apart (σ τ : Substitution) : Prop where
  /-- No term of the second is a name of the first. -/
  back : ∀ x y, τ.bindings.get? x = some (.var y) → σ.bindings.get? y = none
  /-- A chain of the first is not entered by the second. -/
  within : ∀ x y, σ.bindings.get? x = some (.var y) →
    σ.bindings.get? y = none ∨ τ.bindings.get? y = none

/-- A walk that has left its start does not end at a name of the first. -/
theorem Apart.resolve_cases (h : σ.Apart τ) (hτ : τ.Acyclic) (t : Term) :
    τ.resolve t = t ∨ σ.IsEnd (τ.resolve t) := by
  obtain ⟨n, hwalk⟩ := hτ.leads_resolve t
  generalize τ.resolve t = w at hwalk
  induction hwalk with
  | const c => exact .inl rfl
  | free _ => exact .inl rfl
  | @bound x t w n hbound rest ih =>
    refine .inr ?_
    rcases ih with rfl | hend
    · -- the step was the last one, and its term is no name of the first
      cases w with
      | const c => exact .const c
      | var y => exact .free (h.back x y hbound)
    · exact hend

/-- A hop is a step of the first substitution. -/
theorem Apart.get?_of_hop (h : σ.Apart τ) (hτ : τ.Acyclic) (hop : Hop σ τ x y) :
    σ.bindings.get? x = some (.var y) := by
  obtain ⟨t, hbound, hend, hy⟩ := hop
  rcases h.resolve_cases hτ t with heq | hfree
  · rw [hbound, ← heq, hend]
  · rw [hend] at hfree
    rw [contains_eq_false.2 hfree.get?_eq_none] at hy
    cases hy

theorem Apart.fits (h : σ.Apart τ) (hσ : σ.Acyclic) (hτ : τ.Acyclic) : σ.Fits τ := by
  refine ⟨?_, ?_, ?_⟩
  · intro x hops
    exact hσ.not_steps x (Relation.TransGen.mono (fun _ _ => h.get?_of_hop hτ) _ _ hops)
  · intro x t hx
    rcases h.resolve_cases hτ t with heq | hfree
    · rw [heq]
    · have htwice : τ.resolve (τ.resolve t) = τ.resolve t := (hτ.isEnd_resolve t).resolve_eq
      rw [thenResolve, thenResolve, hfree.resolve_eq, htwice]
      cases t with
      | const c => rw [resolve_const σ]
      | var y =>
        rcases h.within x y hx with hy | hy
        · rw [resolve_of_free hy]
        · rw [resolve_of_free hy] at hfree ⊢
          rw [hfree.resolve_eq, resolve_of_free hy]
  · intro x t _ hbound
    cases t with
    | const c => rw [thenResolve, resolve_const σ]
    | var y => rw [thenResolve, resolve_of_free (h.back x y hbound)]

/-! ### The main result -/

/-- **When composing is composition.** For acyclic substitutions, the composite is acyclic exactly
    when its hops never lead back; it is acyclic and acts on every term, literal and clause as the
    first substitution followed by the second exactly when their bindings fit; and they fit if
    the second binds nothing to a name of the first and enters no chain of the first. -/
theorem compose_acts_iff (hσ : σ.Acyclic) (hτ : τ.Acyclic) :
    ((σ.compose τ).Acyclic ↔ ∀ x, ¬Relation.TransGen (Hop σ τ) x x) ∧
    (σ.Acts τ ↔ σ.Fits τ) ∧
    (σ.Apart τ → σ.Acts τ) := by
  have hacts : σ.Fits τ → σ.Acts τ := by
    intro h
    exact ⟨hτ.compose_iff.2 h.noReturn, apply_compose_iff.2 (h.resolve_compose hσ hτ)⟩
  exact ⟨hτ.compose_iff, ⟨fun h => h.fits hσ hτ, hacts⟩, fun h => hacts (h.fits hσ hτ)⟩

/-- One binding is acyclic unless it binds a name to itself. -/
theorem acyclic_single (h : t ≠ .var x) : Acyclic ⟨[(x, t)]⟩ := by
  refine acyclic_empty.set (x := x) rfl ?_ h
  cases t with
  | const c => exact .const c
  | var y => exact .free rfl

/-- The chain `x ↦ y, y ↦ z`. -/
def openChain : Substitution :=
  ⟨[("x", .var "y"), ("y", .var "z")]⟩

theorem acyclic_openChain : openChain.Acyclic :=
  (acyclic_single (x := "x") (t := .var "y") (by decide)).set (x := "y") (u := .var "z")
    (by decide) (.free (by decide)) (by decide)

/-- It goes on where `openChain` ends, and another of its names leads there, too. -/
def continued : Substitution :=
  ⟨[("w", .var "z"), ("z", .const "A")]⟩

theorem acyclic_continued : continued.Acyclic :=
  (acyclic_single (x := "w") (t := .var "z") (by decide)).set (x := "z") (u := .const "A")
    (by decide) (.const "A") (by decide)

theorem compose_acts_iff_continued :
    openChain.Acyclic ∧ continued.Acyclic ∧ openChain.Apart continued ∧
    openChain.compose continued
      = ⟨[("x", .var "y"), ("y", .const "A"), ("w", .var "z"), ("z", .const "A")]⟩ ∧
    openChain.Acts continued := by
  have hapart : openChain.Apart continued := by
    refine ⟨?_, ?_⟩
    · intro x y h
      obtain ⟨rfl, rfl⟩ : x = "w" ∧ y = "z" := by simpa [continued] using mem_of_get? h
      decide
    · intro x y h
      obtain ⟨rfl, rfl⟩ | ⟨rfl, rfl⟩ : x = "x" ∧ y = "y" ∨ x = "y" ∧ y = "z" := by
        simpa [openChain] using mem_of_get? h
      · decide
      · decide
  obtain ⟨_, _, hacts⟩ := compose_acts_iff acyclic_openChain acyclic_continued
  exact ⟨acyclic_openChain, acyclic_continued, hapart, by decide +kernel, hacts hapart⟩

/-- **Composing is not always composition.** All substitutions here are acyclic. A chain of the
    first is entered by the second; the second leads back to a name of the first; and a
    composite is cyclic. -/
theorem composites_go_astray :
    (shortChain.Acyclic ∧ Acyclic ⟨[("y", .const "B")]⟩ ∧
      (shortChain.compose ⟨[("y", .const "B")]⟩).resolve (.var "x") = .const "B" ∧
      shortChain.thenResolve ⟨[("y", .const "B")]⟩ (.var "x") = .const "A") ∧
    (Acyclic ⟨[("x", .const "A")]⟩ ∧ Acyclic ⟨[("y", .var "x")]⟩ ∧
      (compose ⟨[("x", .const "A")]⟩ ⟨[("y", .var "x")]⟩).resolve (.var "y") = .const "A" ∧
      thenResolve ⟨[("x", .const "A")]⟩ ⟨[("y", .var "x")]⟩ (.var "y") = .var "x") ∧
    (Acyclic ⟨[("x", .var "y")]⟩ ∧ Acyclic ⟨[("y", .var "x")]⟩ ∧
      ¬(compose ⟨[("x", .var "y")]⟩ ⟨[("y", .var "x")]⟩).Acyclic) := by
  refine ⟨⟨acyclic_shortChain, acyclic_single (by decide), by decide, by decide⟩,
    ⟨acyclic_single (by decide), acyclic_single (by decide), by decide, by decide⟩,
    acyclic_single (by decide), acyclic_single (by decide), ?_⟩
  intro h
  exact h.not_steps "x" (.single (by decide))

end Substitution

end Refuter
