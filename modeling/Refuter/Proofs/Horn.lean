import Refuter.Proofs.Closure
import Refuter.Proofs.Ground

/-! # Safe Horn clauses are decided

Rules and facts: a clause with at most one positive literal, whose variables all
occur in negative ones. For such clauses, if no literal is repeated, a saturated
set has a model, although clauses share variables and a pair has one resolvent
at most.

**Key idea.** The facts, that is the unit clauses with a positive literal, are
ground. Take the structure in which exactly they are true. If a clause were
false in it for some values, its first negative literal would have a fact for
its instance; the pair is resolved on these two, the unifier is absorbed by the
values, and the resolvent is a clause of the set that is false as well and has
fewer negative literals (`Closed.exists_fewer`).
-/

namespace Refuter

/-- A rule or a fact: one positive literal at most, whose variables occur in
    negative ones, and no literal twice. -/
structure Clause.IsSafeHorn (c : Clause) : Prop where
  /-- No literal is repeated. -/
  plain : c.literals.Nodup
  /-- There is at most one positive literal. -/
  horn : ∀ l ∈ c.literals, ∀ m ∈ c.literals, l.negated = false → m.negated = false → l = m
  /-- Its variables occur in negative literals. -/
  safe : ∀ l ∈ c.literals, l.negated = false → ∀ t ∈ l.args, t.isVar = true →
    ∃ m ∈ c.literals, m.negated = true ∧ t ∈ m.args

instance : DecidablePred Clause.IsSafeHorn := fun c =>
  decidable_of_iff
    (c.literals.Nodup ∧
      (∀ l ∈ c.literals, ∀ m ∈ c.literals, l.negated = false → m.negated = false → l = m) ∧
      ∀ l ∈ c.literals, l.negated = false → ∀ t ∈ l.args, t.isVar = true →
        ∃ m ∈ c.literals, m.negated = true ∧ t ∈ m.args)
    ⟨fun ⟨plain, horn, safe⟩ => ⟨plain, horn, safe⟩, fun h => ⟨h.plain, h.horn, h.safe⟩⟩

/-! ### The rule keeps clauses safe -/

/-- Under a substitution a variable comes from a variable. -/
theorem Literal.exists_var_of_apply {σ : Substitution} {l : Literal} {x : String}
    (h : Term.var x ∈ (σ.applyLiteral l).args) :
    ∃ y, Term.var y ∈ l.args ∧ σ.resolve (.var y) = .var x := by
  obtain ⟨t, ht, htx⟩ := List.mem_map.1 h
  cases t with
  | var y => exact ⟨y, ht, htx⟩
  | const k =>
    rw [σ.resolve_const] at htx
    cases htx

theorem Literal.var_mem_apply {σ : Substitution} {l : Literal} {x y : String}
    (hy : Term.var y ∈ l.args) (hx : σ.resolve (.var y) = .var x) :
    Term.var x ∈ (σ.applyLiteral l).args :=
  List.mem_map.2 ⟨.var y, hy, hx⟩

section Resolvent

variable {pos neg c : Clause} {p n : Literal} {i j : Nat} {σ : Substitution}
  (hp : pos.literals[i]? = some p) (hn : neg.literals[j]? = some n)
  (hpos : p.negated = false) (hneg : n.negated = true)
  (hσ : p.args.map σ.resolve = n.args.map σ.resolve)
  (hc : ∀ k, k ∈ c.literals ↔ ∃ m, (m ∈ pos.literals.eraseIdx i ∨ m ∈ neg.literals.eraseIdx j) ∧
    σ.applyLiteral m = k)
include hp hpos hc

/-- The parent that gives its positive literal has no other one, so those of
    the resolvent come from the other parent. -/
theorem mem_neg_of_positive (h : pos.IsSafeHorn) {k : Literal} (hk : k ∈ c.literals)
    (hkpos : k.negated = false) :
    ∃ m ∈ neg.literals.eraseIdx j, m.negated = false ∧ σ.applyLiteral m = k := by
  obtain ⟨m, hm | hm, rfl⟩ := (hc k).1 hk
  · have hm' : m ∈ pos.literals := List.mem_of_mem_eraseIdx hm
    obtain rfl : m = p := h.horn m hm' p (List.mem_of_getElem? hp) hkpos hpos
    -- the head would stand at a second position
    obtain ⟨i', hne, hi'⟩ := List.mem_eraseIdx_iff_getElem?.1 hm
    have hlt : i < pos.literals.length := (List.getElem?_eq_some_iff.1 hp).1
    exact absurd ((List.getElem?_inj hlt h.plain).1 (hp.trans hi'.symm)).symm hne
  · exact ⟨m, hm, hkpos, rfl⟩

include hn hneg hσ

/-- **Resolving keeps clauses safe:** a variable of the head that is lost with
    the literal resolved on comes back from the other parent's body. -/
theorem isSafeHorn_of_parents (h₁ : pos.IsSafeHorn) (h₂ : neg.IsSafeHorn)
    (hplain : c.literals.Nodup) : c.IsSafeHorn := by
  refine ⟨hplain, ?_, ?_⟩
  · intro k hk k' hk' hkpos hkpos'
    obtain ⟨m, hm, hmpos, rfl⟩ := mem_neg_of_positive hp hpos hc h₁ hk hkpos
    obtain ⟨m', hm', hmpos', rfl⟩ := mem_neg_of_positive hp hpos hc h₁ hk' hkpos'
    rw [h₂.horn m (List.mem_of_mem_eraseIdx hm) m' (List.mem_of_mem_eraseIdx hm') hmpos hmpos']
  · intro k hk hkpos t hx ht
    obtain ⟨x, rfl⟩ : ∃ x, t = .var x := by
      cases t with
      | var x => exact ⟨x, rfl⟩
      | const _ => cases ht
    obtain ⟨m, hm, hmpos, rfl⟩ := mem_neg_of_positive hp hpos hc h₁ hk hkpos
    obtain ⟨y, hy, hyx⟩ := Literal.exists_var_of_apply hx
    obtain ⟨b, hb, hbneg, hyb⟩ := h₂.safe m (List.mem_of_mem_eraseIdx hm) hmpos _ hy rfl
    rcases eq_or_mem_eraseIdx hn hb with rfl | hb
    · -- the body literal is gone, but its instance is that of the other head
      have hxp : Term.var x ∈ (σ.applyLiteral p).args := by
        show Term.var x ∈ p.args.map σ.resolve
        rw [hσ]
        exact Literal.var_mem_apply hyb hyx
      obtain ⟨z, hz, hzx⟩ := Literal.exists_var_of_apply hxp
      obtain ⟨b', hb', hbneg', hzb'⟩ := h₁.safe p (List.mem_of_getElem? hp) hpos _ hz rfl
      rcases eq_or_mem_eraseIdx hp hb' with rfl | hb'
      · rw [hpos] at hbneg'
        cases hbneg'
      · exact ⟨_, (hc _).2 ⟨b', .inl hb', rfl⟩, hbneg', Literal.var_mem_apply hzb' hzx⟩
    · exact ⟨_, (hc _).2 ⟨b, .inr hb, rfl⟩, hbneg, Literal.var_mem_apply hyb hyx⟩

end Resolvent

theorem Clause.IsSafeHorn.resolvent {left right : Clause} {r : Resolvent} (hl : left.IsSafeHorn)
    (hr : right.IsSafeHorn) (h : resolve left right = some r) : r.clause.IsSafeHorn := by
  obtain ⟨l, m, hi, hj, hclash, hc⟩ := resolve_eq_some h
  obtain ⟨hsign, hunify⟩ := clash?_eq_some hclash
  obtain ⟨_, _, hargs⟩ := unify_sound hunify
  have hplain : r.clause.literals.Nodup := hc ▸ Finite.nodup_distinct _
  have hmem : ∀ k, k ∈ r.clause.literals ↔ ∃ n, (n ∈ left.literals.eraseIdx r.left ∨
      n ∈ right.literals.eraseIdx r.right) ∧ r.unifier.applyLiteral n = k := by
    intro k
    rw [hc]
    exact mem_remaining
  -- the parent with the head comes first in the lemma, whichever it is
  cases hneg : l.negated with
  | false =>
    have hmneg : m.negated = true := by simpa [hneg] using hsign.symm
    exact isSafeHorn_of_parents hi hj hneg hmneg hargs hmem hl hr hplain
  | true =>
    have hmpos : m.negated = false := by simpa [hneg] using hsign.symm
    refine isSafeHorn_of_parents hj hi hmpos hneg hargs.symm (fun k => ?_) hr hl hplain
    rw [hmem k]
    exact exists_congr fun n => and_congr_left' or_comm

/-! ### The facts of a closed set -/

namespace WorkingSet

/-- The atoms that stand as unit clauses. -/
def facts (ws : WorkingSet) : Assignment :=
  fun name args => ∃ c ∈ ws.clauses, c.literals = [{ name, args }]

end WorkingSet

/-- A clause without negative literals is a ground fact. -/
theorem Clause.IsSafeHorn.eq_fact {c : Clause} (h : c.IsSafeHorn) (hne : c.isEmpty = false)
    (hpos : ∀ l ∈ c.literals, l.negated = false) :
    ∃ l, c.literals = [l] ∧ l.IsGround := by
  have hground : ∀ l ∈ c.literals, l.IsGround := by
    intro l hl t ht
    cases t with
    | var x =>
      -- a variable would have to occur in a negative literal
      obtain ⟨m, hm, hneg, _⟩ := h.safe l hl (hpos l hl) _ ht rfl
      rw [hpos m hm] at hneg
      cases hneg
    | const k => exact ⟨k, rfl⟩
  match hlits : c.literals with
  | [] => simp [Clause.isEmpty, hlits] at hne
  | [l] => exact ⟨l, rfl, hground l (by simp [hlits])⟩
  | l :: m :: rest =>
    have hlm : l = m := h.horn l (by simp [hlits]) m (by simp [hlits])
      (hpos l (by simp [hlits])) (hpos m (by simp [hlits]))
    have hplain := h.plain
    rw [hlits, hlm] at hplain
    simp at hplain

/-- The number of negative literals. -/
def Clause.bodySize (c : Clause) : Nat :=
  c.literals.countP (·.negated)

/-- Sameness keeps the number of negative literals, if none is repeated. -/
theorem Clause.bodySize_of_same {c d : Clause} (hc : c.literals.Nodup) (hd : d.literals.Nodup)
    (h : c.same d = true) : c.bodySize = d.bodySize := by
  have hperm : c.literals.Perm d.literals :=
    (List.perm_ext_iff_of_nodup hc hd).2 (Clause.same_iff.1 h)
  exact hperm.countP_eq _

/-- What is left without a negative literal, under a substitution, has fewer. -/
theorem Clause.bodySize_lt {c : Clause} {first rest : List Literal} {l : Literal}
    (hc : c.literals = first ++ l :: rest) (hl : l.negated = true) (σ : Substitution) :
    Clause.bodySize ⟨Finite.distinct ((first ++ rest).map σ.applyLiteral)⟩ < c.bodySize := by
  calc Clause.bodySize ⟨Finite.distinct ((first ++ rest).map σ.applyLiteral)⟩
      ≤ ((first ++ rest).map σ.applyLiteral).countP (·.negated) :=
        (Finite.distinct_sublist _).countP_le
    _ = (first ++ rest).countP (·.negated) := by
        rw [List.countP_map]
        rfl
    _ < c.bodySize := by
        have hcons : (l :: rest).countP (·.negated) = rest.countP (·.negated) + 1 :=
          List.countP_cons_of_pos hl
        rw [Clause.bodySize, hc, List.countP_append, List.countP_append, hcons]
        omega

/-- Values that absorb a substitution do not see it. -/
theorem Literal.trueIn_apply_of_absorbs {τ : Assignment} {σ : Substitution}
    {v : String → τ.toStructure.Domain} (h : σ.Absorbs (τ.toStructure.eval v)) (l : Literal) :
    (σ.applyLiteral l).TrueIn (τ.toStructure.atoms v) ↔ l.TrueIn (τ.toStructure.atoms v) := by
  have hargs : (l.args.map σ.resolve).map (τ.toStructure.eval v)
      = l.args.map (τ.toStructure.eval v) := by
    rw [List.map_map]
    exact List.map_congr_left fun t _ => h t
  simp only [Literal.TrueIn, Structure.atoms, Substitution.applyLiteral, Literal.mapArgs, hargs]

namespace WorkingSet

variable {ws : WorkingSet} (hclosed : ws.Closed)
  (hsafe : ∀ c ∈ ws.clauses, c.toClause.IsSafeHorn)
include hclosed hsafe

/-- A resolvent that drops a false negative literal, under values that absorb
    the unifier, is answered by a false clause with fewer negative literals. -/
theorem Closed.exists_fewer_of_resolvent {c a b : NumberedClause} {first rest : List Literal}
    {l : Literal} {r : Resolvent} {v : String → ws.facts.toStructure.Domain}
    (hfalse : ¬ c.toClause.TrueIn (ws.facts.toStructure.atoms v))
    (hlits : c.literals = first ++ l :: rest) (hl : l.negated = true)
    (hab : Before ws.clauses a b) (hres : resolve a.toClause b.toClause = some r)
    (hσ : r.unifier.Absorbs (ws.facts.toStructure.eval v))
    (hr : r.clause = ⟨Finite.distinct ((first ++ rest).map r.unifier.applyLiteral)⟩) :
    ∃ d ∈ ws.clauses, ¬ d.toClause.TrueIn (ws.facts.toStructure.atoms v) ∧
      d.toClause.bodySize < c.toClause.bodySize := by
  obtain ⟨d, hd, hsame⟩ := contains_iff.1 ((hclosed a b hab).2 r hres)
  have hplain : r.clause.literals.Nodup := hr ▸ Finite.nodup_distinct _
  refine ⟨d, hd, fun htrue => hfalse ?_, ?_⟩
  · -- the values do not see the unifier, so a true literal of `d` is one of `c`
    obtain ⟨k, hk, hktrue⟩ := htrue.of_same hsame
    rw [hr] at hk
    obtain ⟨n, hn, rfl⟩ := List.mem_map.1 (Finite.mem_distinct.1 hk)
    refine ⟨n, ?_, (Literal.trueIn_apply_of_absorbs hσ n).1 hktrue⟩
    rw [hlits]
    rcases List.mem_append.1 hn with hn | hn
    · exact List.mem_append_left _ hn
    · exact List.mem_append_right _ (List.mem_cons_of_mem _ hn)
  · rw [Clause.bodySize_of_same (hsafe d hd).plain hplain hsame, hr]
    exact Clause.bodySize_lt hlits hl r.unifier

/-- **The step of the induction:** a clause that is false for some values and has
    a negative literal comes with a false clause that has fewer. -/
theorem Closed.exists_fewer {c : NumberedClause} (hc : c ∈ ws.clauses)
    {v : String → ws.facts.toStructure.Domain}
    (hfalse : ¬ c.toClause.TrueIn (ws.facts.toStructure.atoms v))
    (hneg : ∃ l ∈ c.literals, l.negated = true) :
    ∃ d ∈ ws.clauses, ¬ d.toClause.TrueIn (ws.facts.toStructure.atoms v) ∧
      d.toClause.bodySize < c.toClause.bodySize := by
  let f : Term → Term := ws.facts.toStructure.eval v
  -- the first negative literal is false, so its instance is a fact
  obtain ⟨l, hl⟩ : ∃ l, c.literals.find? (·.negated) = some l := by
    rw [← Option.isSome_iff_exists, List.find?_isSome]
    exact hneg
  obtain ⟨hlneg, first, rest, hlits, hfirst⟩ := List.find?_eq_some_iff_append.1 hl
  have hfact : ws.facts l.name (l.args.map f) := by
    have hnot : ¬ l.TrueIn (ws.facts.toStructure.atoms v) :=
      fun h => hfalse ⟨l, by rw [hlits]; simp, h⟩
    rw [Literal.TrueIn, hlneg] at hnot
    have htrue : ws.facts.toStructure.atoms v l.name l.args := by simpa using hnot
    exact htrue
  obtain ⟨u, hu, hulits⟩ := hfact
  let m : Literal := { name := l.name, args := l.args.map f }
  have hground : m.IsGround := by
    have hne : u.toClause.isEmpty = false := by simp [Clause.isEmpty, hulits]
    obtain ⟨m', hm', hg⟩ := (hsafe u hu).eq_fact hne (by simp [hulits])
    obtain rfl : m' = m := by
      rw [hulits] at hm'
      exact (List.singleton_inj.1 hm').symm
    exact hg
  have hmargs : m.args.map f = m.args :=
    congrArg Literal.args (hground.mapArgs_eq (f := f) fun _ => rfl)
  have hconst : ∀ a b, f (.const a) = f (.const b) → a = b := fun a b h => Term.const.inj h
  have huclause : u.toClause = ⟨[m]⟩ := congrArg Clause.mk hulits
  -- literals in front are positive like the fact, so they do not clash with it
  have hquiet : ∀ k ∈ first, clash? k m = none ∧ clash? m k = none := by
    intro k hk
    have hkpos : k.negated = false := by simpa using hfirst k hk
    simp [clash?, Literal.isComplementary, hkpos, m]
  have hcu : c ≠ u := by
    rintro rfl
    have : l ∈ [m] := hulits ▸ (by rw [hlits]; simp)
    rw [List.mem_singleton.1 this] at hlneg
    cases hlneg
  rcases Before.of_mem_of_ne hc hu hcu with hbefore | hbefore
  · obtain ⟨σ, hσ, habs⟩ := unify_of_solution (l := l) (r := m) hconst rfl hmargs.symm
    have hclash : clash? l m = some σ := by
      simp [clash?, Literal.isComplementary, hlneg, m, hσ]
    have hres := resolve_unit_right hlits (fun k hk => (hquiet k hk).1) hclash
    rw [← huclause] at hres
    exact hclosed.exists_fewer_of_resolvent hsafe hfalse hlits hlneg hbefore hres habs rfl
  · obtain ⟨σ, hσ, habs⟩ := unify_of_solution (l := m) (r := l) hconst rfl hmargs
    have hclash : clash? m l = some σ := by
      simp [clash?, Literal.isComplementary, hlneg, m, hσ]
    have hres := resolve_unit_left hlits (fun k hk => (hquiet k hk).2) hclash
    rw [← huclause] at hres
    exact hclosed.exists_fewer_of_resolvent hsafe hfalse hlits hlneg hbefore hres habs rfl

/-- **Completeness.** In a closed set of safe Horn clauses without the
    contradiction, the facts satisfy every clause. -/
theorem Closed.facts_satisfy (hempty : ws.hasEmpty = false) {c : NumberedClause}
    (hc : c ∈ ws.clauses) :
    ws.facts.toStructure.Satisfies c.toClause := by
  intro v
  -- by strong induction on the number of negative literals
  induction hn : c.toClause.bodySize using Nat.strongRecOn generalizing c with
  | ind n ih =>
    subst hn
    by_contra hfalse
    by_cases hneg : ∃ l ∈ c.literals, l.negated = true
    · obtain ⟨d, hd, hdfalse, hless⟩ := hclosed.exists_fewer hsafe hc hfalse hneg
      exact hdfalse (ih _ hless hd rfl)
    · -- a fact is true by definition
      have hpos : ∀ l ∈ c.literals, l.negated = false := by
        intro l hl
        by_contra h
        exact hneg ⟨l, hl, by simpa using h⟩
      have hne : c.toClause.isEmpty = false := by
        have hall := List.any_eq_false.1 hempty c hc
        simpa using hall
      obtain ⟨l, hlits, hground⟩ := (hsafe c hc).eq_fact hne hpos
      have hl : l ∈ c.literals := by rw [hlits]; simp
      have hcground : c.toClause.IsGround := by
        intro k hk
        have hk : k ∈ c.literals := hk
        rw [hlits, List.mem_singleton] at hk
        rw [hk]
        exact hground
      have hfact : ws.facts l.name l.args := by
        refine ⟨c, hc, hlits.trans ?_⟩
        obtain ⟨name, args, sign⟩ := l
        obtain rfl : sign = false := hpos _ hl
        rfl
      refine hfalse ((Assignment.trueIn_toStructure hcground v).2 ⟨l, hl, ?_⟩)
      rw [Literal.TrueIn, hpos l hl]
      simpa using hfact

end WorkingSet

/-- A run that finds safe Horn clauses saturated leaves them with a structure. -/
theorem Loop.exists_structure_of_saturated_horn (loop : Loop) {d : Derivation}
    (hd : d.outcome = none) (hkept : d.working.Kept)
    (hsafe : ∀ c ∈ d.working.clauses, c.toClause.IsSafeHorn)
    (hsat : (loop.run d).result = .ok .saturated) :
    ∃ M : Structure.{0}, ∀ c ∈ d.working.clauses, M.Satisfies c.toClause := by
  have hclosed := loop.closed_of_saturated hd hkept hsat
  have hend := loop.forall_run (P := Clause.IsSafeHorn) (fun hl hr hres => hl.resolvent hr hres)
    hd hsafe
  refine ⟨_, fun c hc => hclosed.facts_satisfy hend (loop.not_hasEmpty_of_saturated hd hsat) ?_⟩
  exact (loop.clauses_prefix_run hd).subset hc

end Refuter
