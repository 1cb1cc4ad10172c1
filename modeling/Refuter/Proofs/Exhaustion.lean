import Mathlib.Data.Set.Card
import Refuter.Proofs.Search

/-! # Every search ends

Resolution invents no names and no terms, so all it can ever derive lies in a
finite universe of literals. With `L` literals there are `2 ^ L` clauses up to
sameness, and each of them joins at most once.

The argument is a budget. A derivation pays one unseen clause for every step
(`Derivation.Budget`), and a pass without a verdict pays at least one; so both
the steps and the passes are bounded by what was unseen at the start.
-/

namespace Refuter

/-! ### The universe of literals -/

/-- The literals with name, arity and sign of a given literal and with given
    terms. -/
def literalUniverse (clauses : List NumberedClause) : Set Literal :=
  { k | (∃ c ∈ clauses, ∃ l ∈ c.literals,
      (k.name, k.arity, k.negated) = (l.name, l.arity, l.negated)) ∧
    ∀ t ∈ k.args, ∃ c ∈ clauses, ∃ l ∈ c.literals, t ∈ l.args }

theorem mem_literalUniverse {clauses : List NumberedClause} {k : Literal} :
    k ∈ literalUniverse clauses ↔ k ∈ formable clauses := by
  simp only [literalUniverse, Set.mem_ofPred_eq, Prod.mk.injEq, mem_formable, termsOf,
    List.mem_flatMap]
  constructor
  · rintro ⟨⟨c, hc, l, hl, hname, harity, hneg⟩, hargs⟩
    exact ⟨c, hc, l, hl, hname, harity, hneg, hargs⟩
  · rintro ⟨c, hc, l, hl, hname, harity, hneg, hargs⟩
    exact ⟨⟨c, hc, l, hl, hname, harity, hneg⟩, hargs⟩

/-- **The universe is finite,** and the list of formable literals counts it. -/
theorem ncard_literalUniverse (clauses : List NumberedClause) :
    (literalUniverse clauses).ncard = (formable clauses).length := by
  have hset : literalUniverse clauses = ((formable clauses).toFinset : Set Literal) := by
    ext k
    rw [mem_literalUniverse, List.coe_toFinset, Set.mem_ofPred_eq]
  rw [hset, Set.ncard_coe_finset]
  exact List.toFinset_card_of_nodup (Finite.nodup_distinct _)

theorem length_subsets {α : Type} (l : List α) : (Finite.subsets l).length = 2 ^ l.length := by
  induction l with
  | nil => rfl
  | cons a rest ih =>
    rw [Finite.subsets, List.length_append, List.length_map, ih, List.length_cons, Nat.pow_succ]
    omega

/-- No more clauses are unseen than there are sets of literals. -/
theorem WorkingSet.unseen_le (clauses : List NumberedClause) (ws : WorkingSet) :
    ws.unseen clauses ≤ 2 ^ (literalUniverse clauses).ncard := by
  rw [ncard_literalUniverse, ← length_subsets]
  exact List.length_filter_le _ _

/-! ### The budget -/

/-- A derivation from `base` has paid for its steps with unseen clauses, and
    every step has brought one clause. -/
structure Derivation.Budget (base : List NumberedClause) (d : Derivation) : Prop where
  /-- All literals are formable. -/
  within : d.working.Within base
  /-- Each step was paid for. -/
  paid : d.length + d.working.unseen base ≤ 2 ^ (literalUniverse base).ncard
  /-- The clauses are the given ones and the derived ones. -/
  counted : d.working.size = base.length + d.length

theorem budget_initial (clauses : List NumberedClause) :
    Derivation.Budget clauses { working := .initial clauses } where
  within := fun _ hc _ hl => mem_formable_of_mem hc hl
  paid := by
    have h := WorkingSet.unseen_le clauses (.initial clauses)
    simpa [Derivation.length] using h
  counted := by simp [WorkingSet.size, WorkingSet.initial, Derivation.length]

/-- What is left unseen depends on the clauses alone. -/
theorem unseen_of_clauses_eq {base : List NumberedClause} {ws ws' : WorkingSet}
    (h : ws'.clauses = ws.clauses) : ws'.unseen base = ws.unseen base := by
  simp only [WorkingSet.unseen, Pass.contains_of_clauses_eq h]

/-- The budget does not see what was attempted. -/
theorem Derivation.Budget.of_clauses_eq {base : List NumberedClause} {d d' : Derivation}
    (h : Derivation.Budget base d) (hc : d'.working.clauses = d.working.clauses)
    (hs : d'.steps = d.steps) : Derivation.Budget base d' where
  within := Pass.within_of_clauses_eq hc h.within
  paid := by
    have hpaid := h.paid
    rw [Derivation.length] at hpaid ⊢
    rw [unseen_of_clauses_eq hc, hs]
    exact hpaid
  counted := by
    have hcounted := h.counted
    rw [WorkingSet.size, Derivation.length] at hcounted ⊢
    rw [hc, hs]
    exact hcounted

/-- **A gain is paid for:** the resolvent was unseen and is seen now. -/
theorem Derivation.Budget.gain {base : List NumberedClause} {p : Pass}
    (h : Derivation.Budget base p.derivation) {left right : NumberedClause} {r : Resolvent}
    (hr : r.clause.Within base) (hnew : p.derivation.working.contains r.clause = false) :
    Derivation.Budget base (p.gainedDerivation left right r) := by
  let ws := p.gainedSet left right r
  have hclauses : ws.clauses = p.derivation.working.clauses
      ++ [r.clause.withId p.derivation.working.nextId] := Pass.clauses_gainedSet ..
  have hlength : (p.gainedDerivation left right r).length = p.derivation.length + 1 := by
    simp [Pass.gainedDerivation, Derivation.addStep, Derivation.length]
  -- what was seen stays so, and the resolvent is seen for the first time
  have hless : ws.unseen base < p.derivation.working.unseen base := by
    refine WorkingSet.unseen_lt ?_ hr hnew (WorkingSet.contains_join_self _ _)
    intro d hd
    apply WorkingSet.contains_join
    rw [Pass.contains_of_clauses_eq (WorkingSet.clauses_markAttempted ..)]
    exact hd
  refine ⟨?_, ?_, ?_⟩
  · intro c hc
    have hc : c ∈ ws.clauses := hc
    rw [hclauses, List.mem_append, List.mem_singleton] at hc
    rcases hc with hc | rfl
    · exact h.within c hc
    · exact hr
  · have hpaid := h.paid
    show (p.gainedDerivation left right r).length + ws.unseen base ≤ _
    omega
  · have hcounted := h.counted
    show ws.clauses.length = _
    rw [hclauses, hlength, List.length_append, List.length_singleton]
    rw [WorkingSet.size] at hcounted
    omega

/-! ### Attempts, passes and searches keep the budget -/

theorem Pass.budget_attempt {base : List NumberedClause} (loop : Loop) {p : Pass}
    (h : Derivation.Budget base p.derivation) {left right : NumberedClause}
    (hl : left.toClause.Within base) (hr : right.toClause.Within base) :
    Derivation.Budget base (p.attempt loop left right).derivation := by
  rcases attempt_cases loop p left right with ⟨_, hp⟩ | ⟨_, _, hp⟩ | ⟨_, r, hres, hnew, hp⟩
  · rw [hp]
    exact h
  · rw [hp]
    exact h.of_clauses_eq (by simp) rfl
  · rw [hp]
    exact h.gain (within_resolvent hl hr hres) hnew

theorem Pass.budget_run {base : List NumberedClause} (loop : Loop) {d : Derivation}
    (h : Derivation.Budget base d) : Derivation.Budget base (Pass.run loop d).derivation := by
  have hall : Derivation.Budget base (attempts loop d).derivation := by
    refine attempts_keep (I := fun p => Derivation.Budget base p.derivation) ?_ h
    intro p hp _ pair hpair
    obtain ⟨hl, hr⟩ := mem_pairs hpair
    exact budget_attempt loop hp (h.within _ hl) (h.within _ hr)
  rcases run_cases loop d with ⟨_, hrun⟩ | ⟨_, hrun⟩
  · rw [hrun]
    exact hall
  · rw [hrun]
    exact hall.of_clauses_eq rfl rfl

/-- **Passes are few:** each one but the last leaves fewer clauses unseen. -/
theorem Decides.passes_le {base : List NumberedClause} {loop : Loop} {d : Derivation} {n : Nat}
    {p : Pass} (h : Decides loop d n p) (hd : d.working.Within base) :
    n ≤ d.working.unseen base + 1 := by
  induction h with
  | last _ => omega
  | @next d n p hnone rest ih =>
    have hless := Pass.unseen_run_lt loop hd hnone
    have hrest := ih (Pass.progress_run loop hd).within
    omega

/-! ### The main result -/

/-- **Termination.** From clauses with different numbers a loop without a cap
    comes to a decision, at once or in the last of finitely many passes. With
    `L` literals in the universe it derives at most `2 ^ L` clauses and makes at
    most one pass more. -/
theorem saturation_terminates {loop : Loop} (hcap : loop.cap = none)
    {clauses : List NumberedClause} (hids : (clauses.map (·.id)).Nodup) :
    ∃ ws outcome, WorkingSet.ofClauses (clauses.map NumberedClause.labelled) = .ok ws ∧
      (loop.run { working := ws }).result = .ok outcome ∧ outcome ≠ .inconclusive ∧
      (ws.hasEmpty = true ∨ ∃ n p, n ≤ 2 ^ (literalUniverse clauses).ncard + 1 ∧
        Decides loop { working := ws } n p ∧ p.verdict = some outcome) ∧
      (literalUniverse clauses).Finite ∧
      (loop.run { working := ws }).derivation.length ≤ 2 ^ (literalUniverse clauses).ncard ∧
      (loop.run { working := ws }).derivation.working.size
        = clauses.length + (loop.run { working := ws }).derivation.length := by
  let d : Derivation := { working := .initial clauses }
  have hbudget : Derivation.Budget clauses d := budget_initial clauses
  have hdecisive := Loop.result_of_uncapped hcap (d := d) rfl
  have hfinite : (literalUniverse clauses).Finite :=
    (List.finite_toSet (formable clauses)).subset fun k hk => mem_literalUniverse.1 hk
  -- entering an outcome changes neither steps nor clauses
  have hdone : ∀ {e : Derivation} (o : Outcome), Derivation.Budget clauses e →
      (e.close o).length ≤ 2 ^ (literalUniverse clauses).ncard ∧
        (e.close o).working.size = clauses.length + (e.close o).length := by
    intro e o he
    have hpaid := he.paid
    exact ⟨Nat.le_trans (Nat.le_add_right _ _) hpaid, he.counted⟩
  rcases loop.run_cases (d := d) rfl with ⟨hempty, hrun⟩ | ⟨_, n, p, o, events, hdec, hv, _, hrun⟩
  · refine ⟨.initial clauses, .proved, ofClauses_labelled hids, by rw [hrun], by simp,
      .inl hempty, hfinite, ?_⟩
    rw [hrun]
    exact hdone .proved hbudget
  · have hne : o ≠ .inconclusive := by
      rintro rfl
      simp [hrun] at hdecisive
    have hpasses := hdec.passes_le hbudget.within
    have hunseen := WorkingSet.unseen_le clauses d.working
    refine ⟨.initial clauses, o, ofClauses_labelled hids, by rw [hrun], hne,
      .inr ⟨n, p, by omega, hdec, hv⟩, hfinite, ?_⟩
    rw [hrun]
    exact hdone o (hdec.keeps (I := Derivation.Budget clauses)
      (fun _ he => Pass.budget_run loop he) hbudget)

/-- Symmetry and transitivity of a relation, and one pair of it. -/
def equivalenceClauses : List NumberedClause :=
  [{ literals := [{ name := "E", args := [.var "x", .var "y"], negated := true },
      { name := "E", args := [.var "y", .var "x"] }], id := 1 },
   { literals := [{ name := "E", args := [.var "u", .var "v"], negated := true },
      { name := "E", args := [.var "v", .var "w"], negated := true },
      { name := "E", args := [.var "u", .var "w"] }], id := 2 },
   { literals := [{ name := "E", args := [.const "A", .const "B"] }], id := 3 }]

theorem saturation_terminates_equivalenceClauses :
    (equivalenceClauses.map (·.id)).Nodup ∧
    ∃ ws outcome,
      WorkingSet.ofClauses (equivalenceClauses.map NumberedClause.labelled) = .ok ws ∧
      (Loop.run ⟨.incremental, none⟩ { working := ws }).result = .ok outcome ∧
      outcome ≠ .inconclusive ∧
      (Loop.run ⟨.incremental, none⟩ { working := ws }).derivation.length
        ≤ 2 ^ (literalUniverse equivalenceClauses).ncard := by
  have hids : (equivalenceClauses.map (·.id)).Nodup := by decide
  have hcap : (Loop.mk .incremental none).cap = none := rfl
  obtain ⟨ws, outcome, hws, hrun, hne, _, _, hlength, _⟩ := saturation_terminates hcap hids
  exact ⟨hids, ws, outcome, hws, hrun, hne, hlength⟩

end Refuter
