import Mathlib.Tactic.ByContra
import Mathlib.Tactic.Push
import Refuter.Proofs.Closure
import Refuter.Proofs.Soundness

/-! # Ground clauses are decided

For clauses without variables in which no literal is repeated, a run without a
cap decides satisfiability, although a pair of clauses has one resolvent at
most.

**Key idea.** Fix an atom and an assignment. If one clause is false as soon as
the atom is true, and another as soon as it is false, then the two clash on
that atom and nowhere else: a second clash would be a literal and its negation
that are both false. So the first pair of positions that clashes is the right
one (`avoids_of_resolve`). A resolvent that is dropped belongs to clauses that
are never false in this way; it would be a tautology.

Deciding one atom after another, by induction on a list that has them all, a
closed set that no assignment satisfies comes down to a clause that is false
and has no atoms left: the contradiction (`exists_false_avoiding`).
-/

namespace Refuter

/-! ### Ground literals -/

/-- No argument is a variable. -/
def Literal.IsGround (l : Literal) : Prop :=
  ∀ t ∈ l.args, ∃ c, t = .const c

/-- No literal has a variable. -/
def Clause.IsGround (c : Clause) : Prop :=
  ∀ l ∈ c.literals, l.IsGround

theorem Literal.isGround_iff {l : Literal} : l.IsGround ↔ l.vars = [] := by
  simp only [IsGround, vars, Term.vars, List.filterMap_eq_nil_iff]
  constructor
  · intro h t ht
    obtain ⟨c, rfl⟩ := h t ht
    rfl
  · intro h t ht
    cases t with
    | var x => exact absurd (h _ ht) (by simp)
    | const c => exact ⟨c, rfl⟩

theorem Clause.isGround_iff {c : Clause} : c.IsGround ↔ c.vars = [] := by
  simp only [IsGround, Literal.isGround_iff, vars, List.flatMap_eq_nil_iff]

/-- What leaves constants alone leaves ground literals alone. -/
theorem Literal.IsGround.mapArgs_eq {l : Literal} (h : l.IsGround) {f : Term → Term}
    (hf : ∀ c, f (.const c) = .const c) : l.mapArgs f = l := by
  have hargs : l.args.map f = l.args := by
    conv_rhs => rw [← List.map_id l.args]
    refine List.map_congr_left fun t ht => ?_
    obtain ⟨c, rfl⟩ := h t ht
    exact hf c
  simp only [mapArgs, hargs]

theorem Literal.IsGround.apply_eq {l : Literal} (h : l.IsGround) (σ : Substitution) :
    σ.applyLiteral l = l :=
  h.mapArgs_eq σ.resolve_const

/-- **Ground literals clash with their negations only.** -/
theorem eq_negate_of_clash {l m : Literal} (hl : l.IsGround) (hm : m.IsGround)
    {σ : Substitution} (h : clash? l m = some σ) : m = l.negate := by
  obtain ⟨hsign, hunify⟩ := clash?_eq_some h
  obtain ⟨_, hname, hargs⟩ := unify_sound hunify
  -- the unifier does not touch ground arguments, so they were equal before
  have hargs : l.args = m.args := by
    have hl' := congrArg Literal.args (hl.apply_eq σ)
    have hm' := congrArg Literal.args (hm.apply_eq σ)
    simp only [Substitution.applyLiteral, Literal.mapArgs] at hl' hm'
    rw [← hl', ← hm', hargs]
  obtain ⟨name, args, sign⟩ := l
  obtain ⟨name', args', sign'⟩ := m
  obtain rfl : name = name' := hname
  obtain rfl : args = args' := hargs
  have hsign : sign' = !sign := by
    cases sign <;> cases sign' <;> simp_all
  simp only [Literal.negate, hsign]

theorem clash_negate (l : Literal) : ∃ σ, clash? l l.negate = some σ := by
  obtain ⟨σ, hσ, _⟩ := unify_of_solution (f := id) (l := l) (r := l.negate)
    (fun _ _ h => Term.const.inj h) rfl rfl
  refine ⟨σ, ?_⟩
  rw [clash?, if_pos (by cases h : l.negated <;> simp [Literal.isComplementary, Literal.negate, h])]
  exact hσ

/-! ### Deciding one atom -/

/-- The atom of a literal. -/
def Literal.atom (l : Literal) : String × List Term :=
  (l.name, l.args)

/-- The assignment with the value of one atom fixed. -/
def Assignment.fix (τ : Assignment) (a : String × List Term) (b : Bool) : Assignment :=
  fun name args => if (name, args) = a then b = true else τ name args

/-- A literal depends on its own atom only. -/
theorem Literal.trueIn_fix_of_ne {τ : Assignment} {a : String × List Term} {b : Bool}
    {l : Literal} (h : l.atom ≠ a) : l.TrueIn (τ.fix a b) ↔ l.TrueIn τ := by
  have h : ¬ (l.name, l.args) = a := h
  simp only [TrueIn, Assignment.fix, if_neg h]

/-- A literal is false once its atom has its sign as value. -/
theorem Literal.not_trueIn_fix_self {τ : Assignment} {a : String × List Term} {b : Bool}
    {l : Literal} (h : l.atom = a) : ¬ l.TrueIn (τ.fix a b) ↔ l.negated = b := by
  have h : (l.name, l.args) = a := h
  simp only [TrueIn, Assignment.fix, if_pos h]
  cases l.negated <;> cases b <;> simp

section OneAtom

variable {τ : Assignment} {a : String × List Term} {b : Bool} {left right : Clause}
  (hl : ¬ left.TrueIn (τ.fix a b)) (hr : ¬ right.TrueIn (τ.fix a !b))
include hl hr

/-- Two clauses that are false for different values of an atom clash on this
    atom only: elsewhere both literals would be false already. -/
theorem atom_eq_of_mem_negate {l : Literal} (hleft : l ∈ left.literals)
    (hright : l.negate ∈ right.literals) : l.atom = a := by
  by_contra hne
  have h₁ : ¬ l.TrueIn τ := fun h => hl ⟨l, hleft, (Literal.trueIn_fix_of_ne hne).2 h⟩
  have h₂ : ¬ l.negate.TrueIn τ :=
    fun h => hr ⟨_, hright, (Literal.trueIn_fix_of_ne (l := l.negate) hne).2 h⟩
  exact h₂ (Literal.trueIn_negate.2 h₁)

/-- **The first clash is the right one:** any resolvent of the two clauses is
    made of their other literals, and the atom is gone. -/
theorem avoids_of_resolve (hgl : left.IsGround) (hgr : right.IsGround)
    (hnl : left.literals.Nodup) (hnr : right.literals.Nodup) {r : Resolvent}
    (h : resolve left right = some r) :
    ∀ k ∈ r.clause.literals, (k ∈ left.literals ∨ k ∈ right.literals) ∧ k.atom ≠ a := by
  obtain ⟨l, m, hi, hj, hclash, hc⟩ := resolve_eq_some h
  have hlmem := List.mem_of_getElem? hi
  have hmmem := List.mem_of_getElem? hj
  have hm := eq_negate_of_clash (hgl l hlmem) (hgr m hmmem) hclash
  have hatom : l.atom = a := atom_eq_of_mem_negate hl hr hlmem (hm ▸ hmmem)
  -- a literal on the atom has the sign of the one taken away, so it is that one
  have gone : ∀ {ls : List Literal} {i : Nat} {n k : Literal}, ls.Nodup → ls[i]? = some n →
      k ∈ ls.eraseIdx i → k.atom = n.atom → k.negated ≠ n.negated := by
    intro ls i n k hnodup hn hk hkn hsign
    have heq : k = n := by
      obtain ⟨name, args, sign⟩ := k
      simp only [Literal.atom, Prod.mk.injEq] at hkn
      cases n
      simp_all
    obtain ⟨j, hij, hj⟩ := List.mem_eraseIdx_iff_getElem?.1 hk
    have hlt : i < ls.length := (List.getElem?_eq_some_iff.1 hn).1
    exact hij ((List.getElem?_inj hlt hnodup).1 (by rw [hn, hj, heq])).symm
  intro k hk
  rw [hc, mem_remaining] at hk
  obtain ⟨n, hn, rfl⟩ := hk
  rcases hn with hn | hn
  · have hmem := List.mem_of_mem_eraseIdx hn
    rw [(hgl n hmem).apply_eq]
    -- another literal on the atom is false for the same value, so it has the same sign
    refine ⟨.inl hmem, fun hna => gone hnl hi hn (hna.trans hatom.symm) ?_⟩
    have h₁ := (Literal.not_trueIn_fix_self hna).1 fun h => hl ⟨n, hmem, h⟩
    have h₂ := (Literal.not_trueIn_fix_self hatom).1 fun h => hl ⟨l, hlmem, h⟩
    rw [h₁, h₂]
  · have hmem := List.mem_of_mem_eraseIdx hn
    have hma : m.atom = a := by rw [hm]; exact hatom
    rw [(hgr n hmem).apply_eq]
    refine ⟨.inr hmem, fun hna => gone hnr hj hn (hna.trans hma.symm) ?_⟩
    have h₁ := (Literal.not_trueIn_fix_self hna).1 fun h => hr ⟨n, hmem, h⟩
    have h₂ := (Literal.not_trueIn_fix_self hma).1 fun h => hr ⟨m, hmmem, h⟩
    rw [h₁, h₂]

end OneAtom

/-! ### Deciding all atoms -/

/-- **One atom after another.** Suppose that two clauses of a set that are false
    for different values of an atom, and have it, always give a clause without
    it. If every assignment that differs from `τ` on the listed atoms only makes
    a clause false, then `τ` makes a clause false that has none of them. -/
theorem exists_false_avoiding {S : Clause → Prop}
    (hres : ∀ τ a c₁ c₂, S c₁ → S c₂ →
      ¬ c₁.TrueIn (Assignment.fix τ a true) → ¬ c₂.TrueIn (Assignment.fix τ a false) →
      (∃ l ∈ c₁.literals, l.atom = a) → (∃ l ∈ c₂.literals, l.atom = a) →
      ∃ c, S c ∧ ∀ k ∈ c.literals, (k ∈ c₁.literals ∨ k ∈ c₂.literals) ∧ k.atom ≠ a)
    (atoms : List (String × List Term)) :
    ∀ τ : Assignment,
      (∀ τ' : Assignment, (∀ name args, (name, args) ∉ atoms → (τ' name args ↔ τ name args)) →
        ∃ c, S c ∧ ¬ c.TrueIn τ') →
      ∃ c, S c ∧ ¬ c.TrueIn τ ∧ ∀ l ∈ c.literals, l.atom ∉ atoms := by
  induction atoms with
  | nil =>
    intro τ h
    obtain ⟨c, hc, hfalse⟩ := h τ fun _ _ _ => Iff.rfl
    exact ⟨c, hc, hfalse, by simp⟩
  | cons a rest ih =>
    intro τ h
    -- fix the atom to either value; the rest is decided by induction
    have branch : ∀ b, ∃ c, S c ∧ ¬ c.TrueIn (τ.fix a b) ∧ ∀ l ∈ c.literals, l.atom ∉ rest := by
      intro b
      refine ih (τ.fix a b) fun τ' hτ' => h τ' fun name args hnot => ?_
      rw [List.mem_cons, not_or] at hnot
      rw [hτ' name args hnot.2, Assignment.fix, if_neg hnot.1]
    -- a clause without the atom does not care about its value
    have unaffected : ∀ {b : Bool} {c : Clause}, ¬ c.TrueIn (τ.fix a b) →
        (∀ l ∈ c.literals, l.atom ≠ a) → ¬ c.TrueIn τ := by
      rintro b c hfalse hnone ⟨l, hl, htrue⟩
      exact hfalse ⟨l, hl, (Literal.trueIn_fix_of_ne (hnone l hl)).2 htrue⟩
    have both : ∀ {c : Clause}, (∀ l ∈ c.literals, l.atom ≠ a) →
        (∀ l ∈ c.literals, l.atom ∉ rest) → ∀ l ∈ c.literals, l.atom ∉ a :: rest := by
      intro c hne hrest l hl hmem
      rcases List.mem_cons.1 hmem with heq | hmem
      · exact hne l hl heq
      · exact hrest l hl hmem
    obtain ⟨c₁, hc₁, hfalse₁, havoid₁⟩ := branch true
    obtain ⟨c₂, hc₂, hfalse₂, havoid₂⟩ := branch false
    by_cases h₁ : ∃ l ∈ c₁.literals, l.atom = a
    · by_cases h₂ : ∃ l ∈ c₂.literals, l.atom = a
      · -- both have it: resolve
        obtain ⟨c, hc, hlits⟩ := hres τ a c₁ c₂ hc₁ hc₂ hfalse₁ hfalse₂ h₁ h₂
        refine ⟨c, hc, ?_, both (fun k hk => (hlits k hk).2) fun k hk => ?_⟩
        · rintro ⟨k, hk, htrue⟩
          obtain ⟨hmem, hne⟩ := hlits k hk
          rcases hmem with hmem | hmem
          · exact hfalse₁ ⟨k, hmem, (Literal.trueIn_fix_of_ne hne).2 htrue⟩
          · exact hfalse₂ ⟨k, hmem, (Literal.trueIn_fix_of_ne hne).2 htrue⟩
        · exact (hlits k hk).1.elim (havoid₁ k) (havoid₂ k)
      · -- one without it serves as it is
        have hne : ∀ l ∈ c₂.literals, l.atom ≠ a := fun l hl heq => h₂ ⟨l, hl, heq⟩
        exact ⟨c₂, hc₂, unaffected hfalse₂ hne, both hne havoid₂⟩
    · have hne : ∀ l ∈ c₁.literals, l.atom ≠ a := fun l hl heq => h₁ ⟨l, hl, heq⟩
      exact ⟨c₁, hc₁, unaffected hfalse₁ hne, both hne havoid₁⟩

/-! ### Closed sets have models -/

namespace WorkingSet

/-- All clauses are ground and repeat no literal. -/
def Plain (ws : WorkingSet) : Prop :=
  ∀ c ∈ ws.clauses, c.toClause.IsGround ∧ c.literals.Nodup

/-- In a closed plain set the hypothesis of the induction holds. -/
theorem Closed.exists_resolvent {ws : WorkingSet} (hclosed : ws.Closed) (hplain : ws.Plain)
    {τ : Assignment} {a : String × List Term} {n₁ n₂ : NumberedClause} (h₁ : n₁ ∈ ws.clauses)
    (h₂ : n₂ ∈ ws.clauses) (hfalse₁ : ¬ n₁.toClause.TrueIn (τ.fix a true))
    (hfalse₂ : ¬ n₂.toClause.TrueIn (τ.fix a false))
    {l₁ l₂ : Literal} (hl₁ : l₁ ∈ n₁.literals) (hl₂ : l₂ ∈ n₂.literals) (ha₁ : l₁.atom = a)
    (ha₂ : l₂.atom = a) :
    ∃ e ∈ ws.clauses, ∀ k ∈ e.literals,
      (k ∈ n₁.literals ∨ k ∈ n₂.literals) ∧ k.atom ≠ a := by
  have hs₁ : l₁.negated = true := (Literal.not_trueIn_fix_self ha₁).1 fun h => hfalse₁ ⟨l₁, hl₁, h⟩
  have hs₂ : l₂.negated = false := (Literal.not_trueIn_fix_self ha₂).1 fun h => hfalse₂ ⟨l₂, hl₂, h⟩
  have hneg : l₂ = l₁.negate := by
    obtain ⟨name₁, args₁, sign₁⟩ := l₁
    obtain ⟨name₂, args₂, sign₂⟩ := l₂
    have hatom : (name₂, args₂) = (name₁, args₁) := ha₂.trans ha₁.symm
    simp_all [Literal.negate]
  -- a clause with both signs of the atom is false for neither value
  have hne : n₁ ≠ n₂ := by
    rintro rfl
    exact absurd ((Literal.not_trueIn_fix_self ha₂).1 fun h => hfalse₁ ⟨l₂, hl₂, h⟩) (by simp [hs₂])
  obtain ⟨hg₁, hn₁⟩ := hplain n₁ h₁
  obtain ⟨hg₂, hn₂⟩ := hplain n₂ h₂
  -- whichever clause joined first, the pair is answered
  have answer : ∀ {c d : NumberedClause} {r : Resolvent}, Before ws.clauses c d →
      resolve c.toClause d.toClause = some r →
      (∀ k ∈ r.clause.literals, (k ∈ n₁.literals ∨ k ∈ n₂.literals) ∧ k.atom ≠ a) →
      ∃ e ∈ ws.clauses, ∀ k ∈ e.literals, (k ∈ n₁.literals ∨ k ∈ n₂.literals) ∧ k.atom ≠ a := by
    intro c d r hcd hr hlits
    obtain ⟨e, he, hsame⟩ := contains_iff.1 ((hclosed c d hcd).2 r hr)
    exact ⟨e, he, fun k hk => hlits k ((Clause.same_iff.1 hsame k).1 hk)⟩
  rcases Before.of_mem_of_ne h₁ h₂ hne with hcd | hcd
  · obtain ⟨σ, hσ⟩ := clash_negate l₁
    obtain ⟨r, hr⟩ := exists_resolve_of_clash hl₁ hl₂ (hneg ▸ hσ)
    exact answer hcd hr (avoids_of_resolve hfalse₁ hfalse₂ hg₁ hg₂ hn₁ hn₂ hr)
  · obtain ⟨σ, hσ⟩ := clash_negate l₂
    have hneg' : l₂.negate = l₁ := by rw [hneg, Literal.negate_negate]
    obtain ⟨r, hr⟩ := exists_resolve_of_clash hl₂ hl₁ (hneg' ▸ hσ)
    refine answer hcd hr fun k hk => ?_
    obtain ⟨hmem, hka⟩ := avoids_of_resolve hfalse₂ hfalse₁ hg₂ hg₁ hn₂ hn₁ hr k hk
    exact ⟨hmem.symm, hka⟩

/-- **Completeness.** A closed plain set without the contradiction is satisfied
    by some assignment. -/
theorem Closed.exists_assignment {ws : WorkingSet} (hclosed : ws.Closed) (hplain : ws.Plain)
    (hempty : ws.hasEmpty = false) : ∃ τ : Assignment, ∀ c ∈ ws.clauses, c.toClause.TrueIn τ := by
  by_contra hnone
  push Not at hnone
  -- if every assignment fails, one fails on a clause that has none of the atoms
  let atoms := ws.clauses.flatMap fun c => c.literals.map Literal.atom
  obtain ⟨c, ⟨n, hn, rfl⟩, _, havoid⟩ := exists_false_avoiding
    (S := fun c => ∃ n ∈ ws.clauses, n.toClause = c) (by
      rintro τ a _ _ ⟨n₁, h₁, rfl⟩ ⟨n₂, h₂, rfl⟩ hfalse₁ hfalse₂ ⟨l₁, hl₁, ha₁⟩ ⟨l₂, hl₂, ha₂⟩
      obtain ⟨e, he, hlits⟩ := hclosed.exists_resolvent hplain h₁ h₂ hfalse₁ hfalse₂ hl₁ hl₂ ha₁ ha₂
      exact ⟨e.toClause, ⟨e, he, rfl⟩, hlits⟩)
    atoms (fun _ _ => True) (fun τ' _ => by
      obtain ⟨n, hn, hfalse⟩ := hnone τ'
      exact ⟨n.toClause, ⟨n, hn, rfl⟩, hfalse⟩)
  -- every atom of the clause is listed, so it has no literal
  have hnil : n.literals = [] := by
    refine List.eq_nil_iff_forall_not_mem.2 fun l hl => havoid l hl ?_
    exact List.mem_flatMap.2 ⟨n, hn, List.mem_map_of_mem hl⟩
  have : ws.hasEmpty = true := List.any_eq_true.2 ⟨n, hn, by simp [Clause.isEmpty, hnil]⟩
  rw [hempty] at this
  cases this

end WorkingSet

/-! ### The main result -/

/-- The rule keeps clauses ground, and its resolvents repeat no literal. -/
theorem Clause.IsGround.resolvent {left right : Clause} {r : Resolvent} (hl : left.IsGround)
    (hr : right.IsGround) (h : resolve left right = some r) :
    r.clause.IsGround ∧ r.clause.literals.Nodup := by
  obtain ⟨_, _, _, _, _, hc⟩ := resolve_eq_some h
  rw [hc]
  refine ⟨fun k hk => ?_, Finite.nodup_distinct _⟩
  obtain ⟨n, hn, rfl⟩ := mem_remaining.1 hk
  have hg : n.IsGround := hn.elim (fun h => hl n (List.mem_of_mem_eraseIdx h))
    (fun h => hr n (List.mem_of_mem_eraseIdx h))
  rw [hg.apply_eq]
  exact hg

/-- An assignment as a structure in which every term stands for itself. -/
def Assignment.toStructure (τ : Assignment) : Structure where
  Domain := Term
  nonempty := ⟨default⟩
  const := .const
  holds := τ

/-- In this structure a ground clause is true exactly when the assignment makes
    it true. -/
theorem Assignment.trueIn_toStructure {τ : Assignment} {c : Clause} (hc : c.IsGround)
    (v : String → τ.toStructure.Domain) : c.TrueIn (τ.toStructure.atoms v) ↔ c.TrueIn τ := by
  have hlit : ∀ l ∈ c.literals, l.TrueIn (τ.toStructure.atoms v) ↔ l.TrueIn τ := by
    intro l hl
    have hargs := congrArg Literal.args ((hc l hl).mapArgs_eq (f := τ.toStructure.eval v)
      fun _ => rfl)
    have hatom : τ.toStructure.atoms v l.name l.args = τ l.name l.args :=
      congrArg (τ l.name) hargs
    rw [Literal.TrueIn, hatom, Literal.TrueIn]
  constructor
  · rintro ⟨l, hl, htrue⟩
    exact ⟨l, hl, (hlit l hl).1 htrue⟩
  · rintro ⟨l, hl, htrue⟩
    exact ⟨l, hl, (hlit l hl).2 htrue⟩

/-- A run that finds ground clauses saturated leaves them with an assignment. -/
theorem Loop.exists_assignment_of_saturated (loop : Loop) {d : Derivation}
    (hd : d.outcome = none) (hkept : d.working.Kept) (hplain : d.working.Plain)
    (hsat : (loop.run d).result = .ok .saturated) :
    ∃ τ : Assignment, ∀ c ∈ d.working.clauses, c.toClause.TrueIn τ := by
  have hclosed := loop.closed_of_saturated hd hkept hsat
  have hend : (loop.run d).derivation.working.Plain :=
    loop.forall_run (P := fun c => c.IsGround ∧ c.literals.Nodup)
      (fun hl hr hres => hl.1.resolvent hr.1 hres) hd hplain
  obtain ⟨τ, hτ⟩ := hclosed.exists_assignment hend (loop.not_hasEmpty_of_saturated hd hsat)
  exact ⟨τ, fun c hc => hτ c ((loop.clauses_prefix_run hd).subset hc)⟩

/-- **The loop decides ground clauses:** without a cap it finds them saturated
    exactly when an assignment satisfies them all. -/
theorem Loop.saturated_iff_exists_assignment {loop : Loop} (hcap : loop.cap = none)
    {clauses : List NumberedClause} (hids : (clauses.map (·.id)).Nodup)
    (hplain : ∀ c ∈ clauses, c.toClause.IsGround ∧ c.literals.Nodup) :
    (loop.run { working := .initial clauses }).result = .ok .saturated ↔
      ∃ τ : Assignment, ∀ c ∈ clauses, c.toClause.TrueIn τ := by
  constructor
  · exact loop.exists_assignment_of_saturated rfl (WorkingSet.kept_initial hids) hplain
  · rintro ⟨τ, hτ⟩
    have hnot := loop.not_proved_of_satisfied (M := τ.toStructure)
      (d := { working := .initial clauses }) rfl fun c hc v =>
        (Assignment.trueIn_toStructure (hplain c hc).1 v).2 (hτ c hc)
    exact (Loop.result_of_uncapped hcap rfl).resolve_left hnot

/-- **Ground decision.** From ground clauses with different numbers that repeat
    no literal, every loop without a cap comes to an outcome: `proved` exactly
    when no assignment satisfies them all, `saturated` exactly when one does. -/
theorem ground_decision {loop : Loop} (hcap : loop.cap = none) {clauses : List NumberedClause}
    (hids : (clauses.map (·.id)).Nodup) (hground : ∀ c ∈ clauses, c.toClause.vars = [])
    (hrepeat : ∀ c ∈ clauses, c.literals.Nodup) :
    ∃ ws outcome, WorkingSet.ofClauses (clauses.map NumberedClause.labelled) = .ok ws ∧
      (loop.run { working := ws }).result = .ok outcome ∧
      (outcome = .proved ↔ ¬ ∃ τ : Assignment, ∀ c ∈ clauses, c.toClause.TrueIn τ) ∧
      (outcome = .saturated ↔ ∃ τ : Assignment, ∀ c ∈ clauses, c.toClause.TrueIn τ) := by
  have hiff := Loop.saturated_iff_exists_assignment hcap hids
    fun c hc => ⟨Clause.isGround_iff.2 (hground c hc), hrepeat c hc⟩
  rcases Loop.result_of_uncapped hcap (d := { working := .initial clauses }) rfl with hproved | hsat
  · have hnone : ¬ ∃ τ : Assignment, ∀ c ∈ clauses, c.toClause.TrueIn τ := by
      rw [← hiff, hproved]
      simp
    exact ⟨_, .proved, ofClauses_labelled hids, hproved, by simp [hnone], by simp [hnone]⟩
  · have hsome := hiff.1 hsat
    exact ⟨_, .saturated, ofClauses_labelled hids, hsat, by simp [hsome], by simp [hsome]⟩

/-- All four clauses over two atoms, which clash in two literals at once, and an
    atom of the same name with an argument. -/
def fourCorners : List NumberedClause :=
  [{ literals := [{ name := "P" }, { name := "Q" }], id := 4 },
   { literals := [{ name := "Q", negated := true }, { name := "P", negated := true }], id := 3 },
   { literals := [{ name := "P", negated := true }, { name := "Q" }], id := 2 },
   { literals := [{ name := "P" }, { name := "Q", negated := true }], id := 1 },
   { literals := [{ name := "P", args := [.const "A"] }], id := 9 }]

theorem ground_decision_fourCorners :
    (fourCorners.map (·.id)).Nodup ∧ (∀ c ∈ fourCorners, c.toClause.vars = []) ∧
    (∀ c ∈ fourCorners, c.literals.Nodup) ∧
    ∃ ws outcome, WorkingSet.ofClauses (fourCorners.map NumberedClause.labelled) = .ok ws ∧
      (Loop.run ⟨.incremental, none⟩ { working := ws }).result = .ok outcome ∧
      (outcome = .proved ↔ ¬ ∃ τ : Assignment, ∀ c ∈ fourCorners, c.toClause.TrueIn τ) ∧
      (outcome = .saturated ↔ ∃ τ : Assignment, ∀ c ∈ fourCorners, c.toClause.TrueIn τ) :=
  ⟨by decide, by decide, by decide,
    ground_decision rfl (by decide) (by decide) (by decide)⟩

end Refuter
