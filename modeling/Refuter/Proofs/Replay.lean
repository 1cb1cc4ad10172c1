import Refuter.Proofs.Entailment
import Refuter.Proofs.Strategies

/-! # Derivations can be replayed

A derivation is worth keeping because someone else can go through it again. What
such a reader looks at is `Step.Checks`: the number of the step, the places of its
three clauses, and whether the rule leads from the parents to the clause derived.

- **An attempt** that gains adds one step that checks, and the steps before go on
  checking, because clauses never change their places (`Extends.attempt`).
- **A pass** stops at the contradiction, so only the last step can have derived it
  (`Pass.Stopped`).
- **A run** is passes in a row, hence all of this holds of what it leaves behind
  (`Loop.replays`).

**Key result.** Every accepted query has a derivation that can be replayed from the
base and the negated query (`proof_replays`).
-/

namespace Refuter

/-! ### Steps that check -/

/-- Step `k`, counted from zero, of a derivation from `given` clauses. -/
structure Step.Checks (clauses : List NumberedClause) (given k : Nat) (s : Step) : Prop where
  /-- Steps are numbered from one. -/
  number : s.number = k + 1
  /-- The clause derived stands behind those given and those derived before. -/
  placed : clauses[given + k]? = some s.resolvent
  /-- The parents stand before it, and the left one before the right one. -/
  parents : ∃ i j : Nat, i < j ∧ j < given + k ∧ clauses[i]? = some s.left ∧
    clauses[j]? = some s.right
  /-- The rule gives its literals and the unifier. -/
  applied : ∃ r, resolve s.left.toClause s.right.toClause = some r ∧
    r.clause = s.resolvent.toClause ∧ r.unifier = s.unifier
  /-- No clause before it is the same. -/
  fresh : ∀ (i : Nat) (c : NumberedClause), i < given + k → clauses[i]? = some c →
    c.toClause.same s.resolvent.toClause = false

namespace Step.Checks

variable {clauses more : List NumberedClause} {given k : Nat} {s : Step}

/-- What joins later leaves a step as it is. -/
theorem mono (hpre : clauses <+: more) (h : s.Checks clauses given k) :
    s.Checks more given k := by
  obtain ⟨rest, rfl⟩ := hpre
  have hlt : given + k < clauses.length := (List.getElem?_eq_some_iff.1 h.placed).1
  have hkeep : ∀ i, i ≤ given + k → (clauses ++ rest)[i]? = clauses[i]? := by
    intro i hi
    exact List.getElem?_append_left (by omega)
  refine ⟨h.number, ?_, ?_, h.applied, ?_⟩
  · rw [hkeep _ (Nat.le_refl _)]
    exact h.placed
  · obtain ⟨i, j, hij, hj, hleft, hright⟩ := h.parents
    refine ⟨i, j, hij, hj, ?_, ?_⟩
    · rw [hkeep i (by omega)]
      exact hleft
    · rw [hkeep j (by omega)]
      exact hright
  · intro i c hi hc
    rw [hkeep i (by omega)] at hc
    exact h.fresh i c hi hc

end Step.Checks

/-! ### Derivations that go on -/

/-- A derivation that has gone on from `start` by steps that check. -/
structure Derivation.Extends (start d : Derivation) : Prop where
  /-- The query is the same. -/
  query : d.query = start.query
  /-- The negated query is the same. -/
  negatedQuery : d.negatedQuery = start.negatedQuery
  /-- The clauses derived stand behind those given, in order. -/
  clauses : d.working.clauses = start.working.clauses ++ d.steps.map (·.resolvent)
  /-- Each step was reported, in order. -/
  trace : d.trace = start.trace ++ d.steps.map Derivation.stepRecord
  /-- Each step checks. -/
  checks : ∀ (k : Nat) (s : Step), d.steps[k]? = some s →
    s.Checks d.working.clauses start.working.size k

namespace Derivation.Extends

variable {start d : Derivation}

theorem refl (h : start.steps = []) : start.Extends start := by
  refine ⟨rfl, rfl, ?_, ?_, ?_⟩
  · simp [h]
  · simp [h]
  · intro k s hs
    simp [h] at hs

/-- How many clauses there are. -/
theorem size (h : start.Extends d) : d.working.size = start.working.size + d.length := by
  unfold WorkingSet.size Derivation.length
  rw [h.clauses, List.length_append, List.length_map]

/-- Nothing but steps, clauses and reports counts. -/
theorem congr {d' : Derivation} (h : start.Extends d) (hquery : d'.query = d.query)
    (hnegated : d'.negatedQuery = d.negatedQuery)
    (hclauses : d'.working.clauses = d.working.clauses) (htrace : d'.trace = d.trace)
    (hsteps : d'.steps = d.steps) : start.Extends d' := by
  refine ⟨hquery.trans h.query, hnegated.trans h.negatedQuery, ?_, ?_, ?_⟩
  · rw [hclauses, hsteps]
    exact h.clauses
  · rw [htrace, hsteps]
    exact h.trace
  · rw [hclauses, hsteps]
    exact h.checks

/-- **A gain** is one more step that checks. -/
theorem gain {p : Pass} (h : start.Extends p.derivation) {left right : NumberedClause}
    (hpair : Before p.derivation.working.clauses left right) {r : Resolvent}
    (hres : resolve left.toClause right.toClause = some r)
    (hnew : p.derivation.working.contains r.clause = false) :
    start.Extends (p.gainedDerivation left right r) := by
  have hsize : p.derivation.working.clauses.length
      = start.working.size + p.derivation.steps.length := h.size
  have hclauses : (p.gainedDerivation left right r).working.clauses
      = p.derivation.working.clauses ++ [r.clause.withId p.derivation.working.nextId] :=
    Pass.clauses_gainedSet p left right r
  refine ⟨h.query, h.negatedQuery, ?_, ?_, ?_⟩
  · rw [hclauses, h.clauses]
    simp [Pass.gainedDerivation, Derivation.addStep]
  · simp only [Pass.gainedDerivation, Derivation.addStep, h.trace]
    simp
  · intro k s hs
    have hsteps : (p.gainedDerivation left right r).steps = p.derivation.steps ++
        [⟨p.derivation.length + 1, left, right, r.clause.withId p.derivation.working.nextId,
          r.unifier⟩] := rfl
    rw [hsteps] at hs
    rw [hclauses]
    by_cases hk : k < p.derivation.steps.length
    · rw [List.getElem?_append_left hk] at hs
      exact (h.checks k s hs).mono (List.prefix_append _ _)
    · -- the new step: its clause was turned away by none of those present
      obtain rfl : k = p.derivation.steps.length := by
        have hlt := (List.getElem?_eq_some_iff.1 hs).1
        rw [List.length_append, List.length_singleton] at hlt
        omega
      rw [List.getElem?_concat_length] at hs
      obtain rfl := Option.some.inj hs
      have hold : ∀ i, i < p.derivation.working.clauses.length →
          (p.derivation.working.clauses ++ [r.clause.withId p.derivation.working.nextId])[i]?
            = p.derivation.working.clauses[i]? := by
        intro i hi
        exact List.getElem?_append_left hi
      refine ⟨rfl, ?_, ?_, ⟨r, hres, rfl, rfl⟩, ?_⟩
      · rw [← hsize]
        exact List.getElem?_concat_length
      · obtain ⟨i, j, hij, hleft, hright⟩ := hpair
        have hj := (List.getElem?_eq_some_iff.1 hright).1
        refine ⟨i, j, hij, by omega, ?_, ?_⟩
        · rw [hold i (by omega)]
          exact hleft
        · rw [hold j hj]
          exact hright
      · intro i c hi hc
        rw [hold i (by omega)] at hc
        have hnot := (WorkingSet.contains_iff (c := r.clause)).not.1 (by rw [hnew]; simp)
        cases hsame : c.toClause.same r.clause with
        | false => exact hsame
        | true => exact absurd ⟨c, List.mem_of_getElem? hc, hsame⟩ hnot

/-- **An attempt** of a pair in order adds at most one step, and it checks. -/
theorem attempt (loop : Loop) {p : Pass} (h : start.Extends p.derivation)
    {left right : NumberedClause} (hpair : Before p.derivation.working.clauses left right) :
    start.Extends (p.attempt loop left right).derivation := by
  rcases Pass.attempt_cases loop p left right with ⟨_, hp⟩ | ⟨_, _, hp⟩ | ⟨_, r, hres, hnew, hp⟩
  · rw [hp]
    exact h
  · rw [hp]
    exact h.congr rfl rfl (WorkingSet.clauses_markAttempted ..) rfl rfl
  · rw [hp]
    exact h.gain hpair hres hnew

/-- **A pass** adds steps that check. -/
theorem run (loop : Loop) (h : start.Extends d) : start.Extends (Pass.run loop d).derivation := by
  have hattempts : start.Extends (Pass.attempts loop d).derivation ∧
      d.working.clauses <+: (Pass.attempts loop d).derivation.working.clauses := by
    refine Pass.attempts_keep (I := fun p => start.Extends p.derivation ∧
      d.working.clauses <+: p.derivation.working.clauses) ?_ ⟨h, List.prefix_refl _⟩
    intro p hp _ pair hpair
    obtain ⟨hext, hpre⟩ := hp
    refine ⟨?_, hpre.trans (Pass.clauses_attempt_mono loop p pair.1 pair.2)⟩
    exact hext.attempt loop ((before_of_mem_pairs hpair).mono hpre)
  rcases Pass.run_cases loop d with ⟨_, hrun⟩ | ⟨_, hrun⟩
  · rw [hrun]
    exact hattempts.1
  · rw [hrun]
    exact hattempts.1.congr rfl rfl rfl rfl rfl

end Derivation.Extends

/-! ### The contradiction ends a search -/

/-- No step has derived the contradiction. -/
def Derivation.Unrefuted (d : Derivation) : Prop :=
  ∀ s ∈ d.steps, s.resolvent.toClause.isEmpty = false

/-- Either no step has derived the contradiction, or the last one has, and that is
    the verdict. -/
def Pass.Stopped (p : Pass) : Prop :=
  (p.derivation.Unrefuted ∧ p.verdict ≠ some .proved) ∨
  (p.verdict = some .proved ∧ ∃ before s, p.derivation.steps = before ++ [s] ∧
    (∀ t ∈ before, t.resolvent.toClause.isEmpty = false) ∧
    s.resolvent.toClause.isEmpty = true)

namespace Pass

/-- An attempt is made only while there is no contradiction. -/
theorem stopped_attempt (loop : Loop) {p : Pass} (h : p.derivation.Unrefuted)
    (hv : p.verdict = none) (left right : NumberedClause) :
    (p.attempt loop left right).Stopped := by
  have hopen : p.verdict ≠ some .proved := by
    rw [hv]
    simp
  rcases attempt_cases loop p left right with ⟨_, hp⟩ | ⟨_, _, hp⟩ | ⟨_, r, _, _, hp⟩
  · rw [hp]
    exact .inl ⟨h, hopen⟩
  · rw [hp]
    exact .inl ⟨h, hopen⟩
  · rw [hp]
    by_cases hempty : r.clause.isEmpty = true
    · exact .inr ⟨verdict_gain_eq_proved.2 hempty, p.derivation.steps, _, rfl, h, hempty⟩
    · refine .inl ⟨?_, fun hproved => hempty (verdict_gain_eq_proved.1 hproved)⟩
      intro s hs
      rcases List.mem_append.1 hs with hs | hs
      · exact h s hs
      · obtain rfl := List.mem_singleton.1 hs
        exact Bool.eq_false_iff.2 hempty

/-- **A pass stops at the contradiction.** -/
theorem stopped_run (loop : Loop) {d : Derivation} (h : d.Unrefuted) :
    (Pass.run loop d).Stopped := by
  have hattempts : (attempts loop d).Stopped := by
    refine attempts_keep (I := Stopped) ?_ (.inl ⟨h, by simp⟩)
    intro p hp hv pair _
    rcases hp with ⟨hun, _⟩ | ⟨hproved, _⟩
    · exact stopped_attempt loop hun hv pair.1 pair.2
    · rw [hv] at hproved
      cases hproved
  rcases run_cases loop d with ⟨_, hrun⟩ | ⟨hv, hrun⟩
  · rw [hrun]
    exact hattempts
  · rw [hrun]
    rcases hattempts with ⟨hun, _⟩ | ⟨hproved, _⟩
    · refine .inl ⟨hun, ?_⟩
      show (if (attempts loop d).added = 0 then some Outcome.saturated else none) ≠ _
      split <;> simp
    · rw [hv] at hproved
      cases hproved

end Pass

/-! ### Runs -/

/-- How a search from `start` ended: the contradiction was never derived, or the
    last step derived it. -/
def Derivation.EndsWith (start d : Derivation) (outcome : Outcome) : Prop :=
  (d.Unrefuted ∧ (outcome = .proved → start.working.hasEmpty = true)) ∨
  (outcome = .proved ∧ start.working.hasEmpty = false ∧
    ∃ before s, d.steps = before ++ [s] ∧
      (∀ t ∈ before, t.resolvent.toClause.isEmpty = false) ∧
      s.resolvent.toClause.isEmpty = true)

namespace Derivation.EndsWith

variable {start d : Derivation} {outcome : Outcome}

/-- Only the last step may derive the contradiction. -/
theorem eq_last (h : start.EndsWith d outcome) {k : Nat} {s : Step} (hs : d.steps[k]? = some s)
    (hempty : s.resolvent.toClause.isEmpty = true) : k + 1 = d.steps.length := by
  rcases h with ⟨hun, _⟩ | ⟨_, _, before, t, hsteps, hbefore, _⟩
  · have hnot := hun s (List.mem_of_getElem? hs)
    rw [hempty] at hnot
    cases hnot
  · have hlt := (List.getElem?_eq_some_iff.1 hs).1
    rw [hsteps, List.length_append, List.length_singleton] at hlt ⊢
    by_cases hk : k < before.length
    · rw [hsteps, List.getElem?_append_left hk] at hs
      have hnot := hbefore s (List.mem_of_getElem? hs)
      rw [hempty] at hnot
      cases hnot
    · omega

/-- It does so exactly when that proves the query. -/
theorem last_iff (h : start.EndsWith d outcome) :
    (∃ s, d.steps.getLast? = some s ∧ s.resolvent.toClause.isEmpty = true) ↔
      outcome = .proved ∧ start.working.hasEmpty = false := by
  constructor
  · intro hlast
    obtain ⟨s, hs, hempty⟩ := hlast
    rcases h with ⟨hun, _⟩ | ⟨hproved, hgiven, _⟩
    · have hnot := hun s (List.mem_of_getLast? hs)
      rw [hempty] at hnot
      cases hnot
    · exact ⟨hproved, hgiven⟩
  · intro hend
    obtain ⟨hproved, hgiven⟩ := hend
    rcases h with ⟨_, honly⟩ | ⟨_, _, before, s, hsteps, _, hempty⟩
    · rw [honly hproved] at hgiven
      cases hgiven
    · refine ⟨s, ?_, hempty⟩
      rw [hsteps]
      exact List.getLast?_concat

end Derivation.EndsWith

/-- **Every run can be replayed.** It leaves a derivation that has gone on from the
    start by steps that check, up to the contradiction if that is found. -/
theorem Loop.replays (loop : Loop) {start : Derivation} (hopen : start.outcome = none)
    (hsteps : start.steps = []) :
    ∃ d outcome events, loop.run start = ⟨d.close outcome, .ok outcome, events⟩ ∧
      start.Extends d ∧ start.EndsWith d outcome := by
  have hun : start.Unrefuted := by
    intro s hs
    rw [hsteps] at hs
    cases hs
  rcases loop.run_cases hopen with
    ⟨hempty, hrun⟩ | ⟨hempty, n, p, outcome, events, hdec, hv, _, hrun⟩
  · exact ⟨start, .proved, [], hrun, .refl hsteps, .inl ⟨hun, fun _ => hempty⟩⟩
  · obtain ⟨d, _, ⟨hext, hd⟩, rfl, _⟩ := hdec.exists_last
      (I := fun d => start.Extends d ∧ d.Unrefuted) (by
        intro d hd hnone
        refine ⟨hd.1.run loop, ?_⟩
        rcases Pass.stopped_run loop hd.2 with ⟨h, _⟩ | ⟨hproved, _⟩
        · exact h
        · rw [hnone] at hproved
          cases hproved) ⟨.refl hsteps, hun⟩
    refine ⟨_, outcome, events, hrun, hext.run loop, ?_⟩
    rcases Pass.stopped_run loop hd with ⟨h, hnot⟩ | ⟨hproved, hlast⟩
    · refine .inl ⟨h, ?_⟩
      intro hproved
      rw [hproved] at hv
      exact absurd hv hnot
    · rw [hv] at hproved
      exact .inr ⟨Option.some.inj hproved, hempty, hlast⟩

/-! ### Queries -/

namespace Engine

/-- The clauses with which a query begins: the base, and the negated query unless
    the same clause is there already. -/
def given (base : List NumberedClause) (negated : Clause) : List NumberedClause :=
  if base.any fun c => c.toClause.same negated then base
  else base ++ [negated.withId (WorkingSet.nextAfter (base.map (·.id)))]

theorem clauses_start (base : List NumberedClause) (negated : Clause) :
    (start base negated).clauses = given base negated := by
  unfold given
  cases hcon : (WorkingSet.initial base).contains negated with
  | true =>
    have hany : (base.any fun c => c.toClause.same negated) = true := hcon
    rw [start_of_contains hcon, hany]
    rfl
  | false =>
    have hany : (base.any fun c => c.toClause.same negated) = false := hcon
    rw [start_of_not_contains hcon, hany]
    rfl

/-- **The negated query has a place:** its number is that of a clause with the same
    literals. -/
theorem place_mem (base : List NumberedClause) (negated : Clause) :
    (place (.initial base) negated).1.toClause = negated ∧
      ∃ c ∈ given base negated, c.id = (place (.initial base) negated).1.id ∧
        c.toClause.same negated = true := by
  rw [← clauses_start]
  cases hcon : (WorkingSet.initial base).contains negated with
  | false =>
    rw [start_of_not_contains hcon, place, WorkingSet.add_of_not_contains hcon]
    refine ⟨rfl, negated.withId (WorkingSet.initial base).nextId, ?_, rfl, Clause.same_refl negated⟩
    rw [WorkingSet.clauses_join]
    exact List.mem_append_right _ (List.mem_singleton_self _)
  | true =>
    rw [start_of_contains hcon, place, WorkingSet.add_of_contains hcon]
    dsimp only
    split
    · rename_i c hfind
      have hsame := List.find?_some (p := fun d : NumberedClause => d.toClause.same negated) hfind
      exact ⟨rfl, c, List.mem_of_find?_eq_some hfind, rfl, hsame⟩
    · -- the clause that turned it away would have been found
      rename_i hfind
      obtain ⟨c, hc, hsame⟩ := WorkingSet.contains_iff.1 hcon
      exact absurd hsame (List.find?_eq_none.1 hfind c hc)

/-- **An accepted query is answered** by a derivation that goes on from its opening,
    whatever the trace holds already. -/
theorem prove_replays {engine : Engine} (hids : (engine.base.map (·.id)).Nodup) {query : String}
    {negated : Clause} {builder : Builder}
    (hneg : Build.negate query engine.builder = (.ok negated, builder))
    (trace : List Record := []) :
    ∃ d outcome, (engine.prove query trace).result = .ok (d.close outcome) ∧
      (engine.prove query trace).engine = { engine with builder, status := .decided outcome } ∧
      d.working.Kept ∧
      (opening engine.base query negated trace).Extends d ∧
      (opening engine.base query negated trace).EndsWith d outcome := by
  have hopen : (opening engine.base query negated trace).outcome = none := rfl
  obtain ⟨d, outcome, events, hrun, hext, hend⟩ := engine.loop.replays hopen rfl
  have hkept : (engine.loop.run (opening engine.base query negated trace)).derivation.working.Kept :=
    engine.loop.kept_run (kept_start hids negated)
  rw [hrun] at hkept
  refine ⟨d, outcome, ?_, ?_, hkept, hext, hend⟩
  · rw [result_prove engine hids hneg trace, hrun]
    rfl
  · simp only [opening, start] at hrun
    rw [prove, hneg]
    dsimp only
    rw [search]
    dsimp only
    rw [ofClauses_labelled hids]
    dsimp only
    rw [hrun]

end Engine

/-! ### The main result -/

/-- **Every proof can be replayed.** For an engine whose base has different numbers,
    with any loop and cap, an accepted query has a finished derivation. Its clauses
    are those given and behind them the clause of each step; each step checks; only
    the last one may derive the contradiction, and it does so exactly when the query
    is proved and the contradiction was not given; the negated query has the number of
    a clause with its literals. -/
theorem proof_replays {engine : Engine} (hids : (engine.base.map (·.id)).Nodup) {query : String}
    {negated : Clause} {builder : Builder}
    (hneg : Build.negate query engine.builder = (.ok negated, builder)) :
    ∃ d outcome, (engine.prove query).result = .ok d ∧ d.outcome = some outcome ∧
      let given := Engine.given engine.base negated
      d.working.clauses = given ++ d.steps.map (·.resolvent) ∧
      (∀ (k : Nat) (s : Step), d.steps[k]? = some s →
        s.Checks d.working.clauses given.length k ∧
        (s.resolvent.toClause.isEmpty = true → k + 1 = d.steps.length)) ∧
      ((∃ s, d.steps.getLast? = some s ∧ s.resolvent.toClause.isEmpty = true) ↔
        outcome = .proved ∧ ∀ c ∈ given, c.toClause.isEmpty = false) ∧
      ∃ q, d.negatedQuery = some q ∧ q.toClause = negated ∧
        ∃ c ∈ d.working.clauses, c.id = q.id ∧ c.toClause.same q.toClause = true := by
  obtain ⟨d, outcome, hresult, _, _, hext, hend⟩ := Engine.prove_replays hids hneg
  have hclauses := Engine.clauses_start engine.base negated
  have hgiven : (Engine.start engine.base negated).hasEmpty = false ↔
      ∀ c ∈ Engine.given engine.base negated, c.toClause.isEmpty = false := by
    unfold WorkingSet.hasEmpty
    rw [hclauses, List.any_eq_false]
    simp only [Bool.not_eq_true]
  refine ⟨d.close outcome, outcome, hresult, rfl, ?_, ?_, ?_, ?_⟩
  · rw [← hclauses]
    exact hext.clauses
  · intro k s hs
    refine ⟨?_, hend.eq_last hs⟩
    rw [← hclauses]
    exact hext.checks k s hs
  · rw [← hgiven]
    exact hend.last_iff
  · obtain ⟨hquery, c, hc, hid, hsame⟩ := Engine.place_mem engine.base negated
    refine ⟨(Engine.place (.initial engine.base) negated).1, hext.negatedQuery, hquery, c, ?_, hid, ?_⟩
    · show c ∈ d.working.clauses
      rw [hext.clauses]
      refine List.mem_append_left _ ?_
      show c ∈ (Engine.start engine.base negated).clauses
      rw [hclauses]
      exact hc
    · rw [hquery]
      exact hsame

/-- A base whose numbers do not ascend. It holds the negation of `P(A)` already. -/
def presentQuery : Engine :=
  .ofClauses [{ literals := [{ name := "P", args := [.var "x"] }, { name := "Q" }], id := some 7 },
    { literals := [{ name := "P", args := [.const "A"], negated := true }], id := some (-2) },
    { literals := [{ name := "Q", negated := true }] }] ⟨.incremental, some 5⟩ none

theorem proof_replays_presentQuery :
    (presentQuery.base.map (·.id)).Nodup ∧
    ∃ d, (presentQuery.prove "P(A)").result = .ok d ∧
      d.working.clauses = presentQuery.base ++ d.steps.map (·.resolvent) ∧
      (∀ (k : Nat) (s : Step), d.steps[k]? = some s → s.Checks d.working.clauses 3 k) ∧
      ∃ s, d.steps.getLast? = some s ∧ s.resolvent.toClause.isEmpty = true := by
  have hids : (presentQuery.base.map (·.id)).Nodup := by decide +kernel
  have hnegate : Build.negate "P(A)" presentQuery.builder
      = (.ok ⟨[{ name := "P", args := [.const "A"], negated := true }]⟩,
        (Build.negate "P(A)" presentQuery.builder).2) := eq_ok_of_toOption (by decide +kernel)
  have hproved : ((presentQuery.prove "P(A)").result.toOption.bind (·.outcome)) = some .proved := by
    decide +kernel
  have hgiven : Engine.given presentQuery.base
      ⟨[{ name := "P", args := [.const "A"], negated := true }]⟩ = presentQuery.base := by
    decide +kernel
  obtain ⟨d, outcome, hd, houtcome, hclauses, hsteps, hlast, _⟩ := proof_replays hids hnegate
  rw [hgiven] at hclauses hsteps hlast
  rw [hd] at hproved
  obtain rfl : outcome = .proved := Option.some.inj (houtcome.symm.trans hproved)
  refine ⟨hids, d, hd, hclauses, ?_, hlast.2 ⟨rfl, by decide +kernel⟩⟩
  intro k s hs
  exact (hsteps k s hs).1

end Refuter
