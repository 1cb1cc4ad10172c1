import Refuter.Saturation.Run

/-! # What a search does

One inversion for each level of the search, from which all of its invariants
follow.

- **An attempt** skips the pair, leaves it without gain, or joins its resolvent
  to the working set (`Pass.attempt_cases`).
- **A pass** is attempts in a row, so what an attempt keeps a pass keeps
  (`Pass.attemptAll_keeps`).
- **A search** is passes in a row until one has a verdict (`Decides`). The
  number of passes is part of the relation, so that it can be bounded.
- **A run** needs no pass if the contradiction is given, and is a search
  otherwise (`Loop.run_cases`).
-/

namespace Refuter

/-! ### Working sets -/

namespace WorkingSet

/-- The working set once a clause has joined. -/
def join (ws : WorkingSet) (c : Clause) : WorkingSet :=
  { ws with clauses := ws.clauses ++ [c.withId ws.nextId], nextId := ws.nextId + 1 }

@[simp] theorem clauses_join (ws : WorkingSet) (c : Clause) :
    (ws.join c).clauses = ws.clauses ++ [c.withId ws.nextId] := rfl

@[simp] theorem isAttempted_join (ws : WorkingSet) (c : Clause) (a b : Int) :
    (ws.join c).isAttempted a b = ws.isAttempted a b := rfl

@[simp] theorem frontier_join (ws : WorkingSet) (c : Clause) :
    (ws.join c).frontier = ws.frontier := rfl

theorem contains_join {ws : WorkingSet} {c d : Clause} (h : ws.contains d = true) :
    (ws.join c).contains d = true := by
  obtain ⟨e, he, hs⟩ := contains_iff.1 h
  exact contains_iff.2 ⟨e, List.mem_append_left _ he, hs⟩

theorem contains_join_self (ws : WorkingSet) (c : Clause) : (ws.join c).contains c = true :=
  contains_iff.2 ⟨_, List.mem_append_right _ (List.mem_singleton_self _), Clause.same_refl c⟩

theorem add_of_contains {ws : WorkingSet} {c : Clause} (h : ws.contains c = true) :
    ws.add c = (none, ws) := by
  rw [add, if_pos h]

theorem add_of_not_contains {ws : WorkingSet} {c : Clause} (h : ws.contains c = false) :
    ws.add c = (some (c.withId ws.nextId), ws.join c) := by
  rw [add, if_neg (by rw [h]; exact Bool.false_ne_true)]
  rfl

@[simp] theorem nextId_markAttempted (ws : WorkingSet) (a b : Int) :
    (ws.markAttempted a b).nextId = ws.nextId := by
  unfold markAttempted
  split <;> rfl

@[simp] theorem frontier_markAttempted (ws : WorkingSet) (a b : Int) :
    (ws.markAttempted a b).frontier = ws.frontier := by
  unfold markAttempted
  split <;> rfl

/-- **Marking** adds one key and no other. -/
theorem mem_attempted_markAttempted {ws : WorkingSet} {a b : Int} {key : Int × Int} :
    key ∈ (ws.markAttempted a b).attempted ↔ key = pairKey a b ∨ key ∈ ws.attempted := by
  unfold markAttempted
  split
  · rename_i h
    have hmem : pairKey a b ∈ ws.attempted := List.contains_iff_mem.1 h
    constructor
    · exact .inr
    · rintro (rfl | h)
      · exact hmem
      · exact h
  · exact List.mem_cons

theorem isAttempted_iff {ws : WorkingSet} {a b : Int} :
    ws.isAttempted a b = true ↔ pairKey a b ∈ ws.attempted :=
  List.contains_iff_mem

end WorkingSet

/-! ### Attempts -/

namespace Pass

/-- The pass after a pair that brought nothing new. -/
def idle (p : Pass) (left right : NumberedClause) : Pass :=
  { p with
    derivation :=
      { p.derivation with working := p.derivation.working.markAttempted left.id right.id }
    attempted := p.attempted + 1 }

/-- The working set after a pair whose resolvent is new. -/
def gainedSet (p : Pass) (left right : NumberedClause) (r : Resolvent) : WorkingSet :=
  (p.derivation.working.markAttempted left.id right.id).join r.clause

/-- The derivation after a pair whose resolvent is new. -/
def gainedDerivation (p : Pass) (left right : NumberedClause) (r : Resolvent) : Derivation :=
  { p.derivation with working := p.gainedSet left right r }.addStep left right
    (r.clause.withId p.derivation.working.nextId) r.unifier

/-- The pass after a pair whose resolvent is new. -/
def gain (loop : Loop) (p : Pass) (left right : NumberedClause) (r : Resolvent) : Pass :=
  { derivation := p.gainedDerivation left right r
    attempted := p.attempted + 1
    added := p.added + 1
    verdict :=
      if r.clause.isEmpty then some .proved
      else if loop.capReached (p.gainedDerivation left right r).length then some .inconclusive
      else none }

@[simp] theorem working_idle (p : Pass) (left right : NumberedClause) :
    (p.idle left right).derivation.working
      = p.derivation.working.markAttempted left.id right.id := rfl

@[simp] theorem working_gain (loop : Loop) (p : Pass) (left right : NumberedClause)
    (r : Resolvent) : (p.gain loop left right r).derivation.working = p.gainedSet left right r :=
  rfl

@[simp] theorem clauses_gainedSet (p : Pass) (left right : NumberedClause) (r : Resolvent) :
    (p.gainedSet left right r).clauses
      = p.derivation.working.clauses ++ [r.clause.withId p.derivation.working.nextId] := by
  simp [gainedSet]

/-- The verdict `proved` is given on the contradiction only. -/
theorem verdict_gain_eq_proved {loop : Loop} {p : Pass} {left right : NumberedClause}
    {r : Resolvent} :
    (p.gain loop left right r).verdict = some .proved ↔ r.clause.isEmpty = true := by
  by_cases he : r.clause.isEmpty = true
  · simp [gain, he]
  · simp only [gain, he]
    split <;> simp_all

/-- **What an attempt can do:** the pair was tried before; or it has no
    resolvent, or one that is present; or its resolvent joins. -/
theorem attempt_cases (loop : Loop) (p : Pass) (left right : NumberedClause) :
    (p.derivation.working.isAttempted left.id right.id = true ∧
      p.attempt loop left right = p) ∨
    (p.derivation.working.isAttempted left.id right.id = false ∧
      (∀ r, resolve left.toClause right.toClause = some r →
        p.derivation.working.contains r.clause = true) ∧
      p.attempt loop left right = p.idle left right) ∨
    (p.derivation.working.isAttempted left.id right.id = false ∧
      ∃ r, resolve left.toClause right.toClause = some r ∧
        p.derivation.working.contains r.clause = false ∧
        p.attempt loop left right = p.gain loop left right r) := by
  cases hatt : p.derivation.working.isAttempted left.id right.id with
  | true => exact .inl ⟨rfl, by simp [attempt, hatt]⟩
  | false =>
    refine .inr ?_
    cases hres : resolve left.toClause right.toClause with
    | none =>
      refine .inl ⟨rfl, ?_, by simp [attempt, hatt, hres, idle]⟩
      intro r hr
      cases hr
    | some r =>
      -- marking the pair does not touch the clauses
      have hmark := contains_of_clauses_eq
        (WorkingSet.clauses_markAttempted p.derivation.working left.id right.id) r.clause
      cases hcon : p.derivation.working.contains r.clause with
      | true =>
        refine .inl ⟨rfl, fun r' hr' => by cases hr'; exact hcon, ?_⟩
        rw [hcon] at hmark
        simp [attempt, hatt, hres, WorkingSet.add_of_contains hmark, idle]
      | false =>
        refine .inr ⟨rfl, r, rfl, hcon, ?_⟩
        rw [hcon] at hmark
        simp only [attempt, hatt, hres, WorkingSet.add_of_not_contains hmark,
          WorkingSet.nextId_markAttempted]
        rfl

/-- **An attempt is determined** by what is known of its pair. -/
theorem attempt_of_attempted {loop : Loop} {p : Pass} {left right : NumberedClause}
    (h : p.derivation.working.isAttempted left.id right.id = true) :
    p.attempt loop left right = p := by
  rcases attempt_cases loop p left right with ⟨_, hp⟩ | ⟨hnot, _⟩ | ⟨hnot, _⟩
  · exact hp
  · exact absurd (hnot.symm.trans h) Bool.false_ne_true
  · exact absurd (hnot.symm.trans h) Bool.false_ne_true

theorem attempt_of_idle {loop : Loop} {p : Pass} {left right : NumberedClause}
    (h : p.derivation.working.isAttempted left.id right.id = false)
    (hans : ∀ r, resolve left.toClause right.toClause = some r →
      p.derivation.working.contains r.clause = true) :
    p.attempt loop left right = p.idle left right := by
  rcases attempt_cases loop p left right with ⟨hatt, _⟩ | ⟨_, _, hp⟩ | ⟨_, r, hr, hnew, _⟩
  · exact absurd (h.symm.trans hatt) Bool.false_ne_true
  · exact hp
  · exact absurd (hnew.symm.trans (hans r hr)) Bool.false_ne_true

theorem attempt_of_gain {loop : Loop} {p : Pass} {left right : NumberedClause} {r : Resolvent}
    (h : p.derivation.working.isAttempted left.id right.id = false)
    (hr : resolve left.toClause right.toClause = some r)
    (hnew : p.derivation.working.contains r.clause = false) :
    p.attempt loop left right = p.gain loop left right r := by
  rcases attempt_cases loop p left right with ⟨hatt, _⟩ | ⟨_, hans, _⟩ | ⟨_, r', hr', _, hp⟩
  · exact absurd (h.symm.trans hatt) Bool.false_ne_true
  · exact absurd (hnew.symm.trans (hans r hr)) Bool.false_ne_true
  · rw [hr] at hr'
    rw [hp, Option.some.inj hr']

/-! ### Passes -/

/-- **Attempts in a row:** what every attempt of a listed pair keeps, they keep.
    No attempt is made once there is a verdict. -/
theorem attemptAll_keeps {I : Pass → Prop} {loop : Loop}
    {pairs : List (NumberedClause × NumberedClause)}
    (step : ∀ p, I p → p.verdict = none → ∀ pair ∈ pairs, I (p.attempt loop pair.1 pair.2))
    {p : Pass} (h : I p) (hv : p.verdict = none) : I (p.attemptAll loop pairs) := by
  induction pairs generalizing p with
  | nil => exact h
  | cons pair rest ih =>
    obtain ⟨left, right⟩ := pair
    have h' : I (p.attempt loop left right) := step p h hv _ (List.mem_cons_self ..)
    simp only [attemptAll]
    split
    · exact h'
    · rename_i hnone
      exact ih (fun p hp hv pair hmem => step p hp hv pair (List.mem_cons_of_mem _ hmem)) h' hnone

/-- The clauses never change their places: attempts only append. -/
theorem clauses_attempt_mono (loop : Loop) (p : Pass) (left right : NumberedClause) :
    p.derivation.working.clauses <+: (p.attempt loop left right).derivation.working.clauses := by
  rcases attempt_cases loop p left right with ⟨_, h⟩ | ⟨_, _, h⟩ | ⟨_, r, _, _, h⟩
  · exact h.symm ▸ List.prefix_refl _
  · have hsame : (p.attempt loop left right).derivation.working.clauses
        = p.derivation.working.clauses := by
      rw [h, working_idle, WorkingSet.clauses_markAttempted]
    exact hsame.symm ▸ List.prefix_refl _
  · rw [h, working_gain, clauses_gainedSet]
    exact List.prefix_append _ _

/-- The attempts of a pass, before it is completed. -/
def attempts (loop : Loop) (d : Derivation) : Pass :=
  attemptAll loop { derivation := d } (loop.strategy.pairs d.working)

/-- What every attempt of a pair of the working set keeps, they keep. -/
theorem attempts_keep {I : Pass → Prop} {loop : Loop} {d : Derivation}
    (step : ∀ p, I p → p.verdict = none → ∀ pair ∈ loop.strategy.pairs d.working,
      I (p.attempt loop pair.1 pair.2)) (h : I { derivation := d }) : I (attempts loop d) :=
  attemptAll_keeps step h rfl

/-- **What a pass can be:** cut short by a verdict of its attempts, or completed
    with a verdict that depends on what they added. -/
theorem run_cases (loop : Loop) (d : Derivation) :
    ((∃ o, (attempts loop d).verdict = some o) ∧ run loop d = attempts loop d) ∨
    ((attempts loop d).verdict = none ∧ run loop d =
      { attempts loop d with
        derivation :=
          { (attempts loop d).derivation with
            working := { (attempts loop d).derivation.working with frontier := d.working.size }
            passes := (attempts loop d).derivation.passes + 1 }
        verdict := if (attempts loop d).added = 0 then some .saturated else none }) := by
  show ((∃ o, (attempts loop d).verdict = some o) ∧
    (attempts loop d).complete d.working.size = attempts loop d) ∨ _ ∧
    (attempts loop d).complete d.working.size = _
  cases hv : (attempts loop d).verdict with
  | some o => exact .inl ⟨⟨o, rfl⟩, by simp [complete, hv]⟩
  | none => exact .inr ⟨rfl, by simp [complete, hv]⟩

/-- Completing a pass touches no clause. -/
theorem clauses_run (loop : Loop) (d : Derivation) :
    (run loop d).derivation.working.clauses = (attempts loop d).derivation.working.clauses := by
  rcases run_cases loop d with ⟨_, h⟩ | ⟨_, h⟩
  · rw [h]
  · rw [h]

/-- A verdict that no gain brings is none of the attempts. -/
theorem verdict_attempts_ne {loop : Loop} {d : Derivation} {o : Outcome}
    (hgain : ∀ p left right r, (gain loop p left right r).verdict ≠ some o) :
    (attempts loop d).verdict ≠ some o := by
  refine attempts_keep (I := fun p => p.verdict ≠ some o) ?_ (by simp)
  intro p hne _ pair _
  rcases attempt_cases loop p pair.1 pair.2 with ⟨_, hp⟩ | ⟨_, _, hp⟩ | ⟨_, r, _, _, hp⟩
  · rw [hp]
    exact hne
  · rw [hp]
    exact hne
  · rw [hp]
    exact hgain p pair.1 pair.2 r

end Pass

/-! ### Searches -/

/-- The `n`-th pass from `d` on is the first with a verdict, and it is `p`. -/
inductive Decides (loop : Loop) : Derivation → Nat → Pass → Prop where
  /-- The coming pass has a verdict. -/
  | last {d : Derivation} {o : Outcome} (h : (Pass.run loop d).verdict = some o) :
      Decides loop d 1 (Pass.run loop d)
  /-- The coming pass has none, and a later one has. -/
  | next {d : Derivation} {n : Nat} {p : Pass} (h : (Pass.run loop d).verdict = none)
      (rest : Decides loop (Pass.run loop d).derivation n p) : Decides loop d (n + 1) p

/-- **Passes in a row:** what every pass keeps holds before the last one. -/
theorem Decides.exists_last {I : Derivation → Prop} {loop : Loop}
    (step : ∀ d, I d → (Pass.run loop d).verdict = none → I (Pass.run loop d).derivation)
    {d : Derivation} {n : Nat} {p : Pass} (h : Decides loop d n p) (hd : I d) :
    ∃ d' o, I d' ∧ p = Pass.run loop d' ∧ p.verdict = some o := by
  induction h with
  | @last d o h => exact ⟨d, o, hd, rfl, h⟩
  | @next d n p h rest ih => exact ih (step d hd h)

/-- What every pass keeps, the last one keeps too. -/
theorem Decides.keeps {I : Derivation → Prop} {loop : Loop}
    (step : ∀ d, I d → I (Pass.run loop d).derivation)
    {d : Derivation} {n : Nat} {p : Pass} (h : Decides loop d n p) (hd : I d) :
    I p.derivation := by
  obtain ⟨d', _, hd', rfl, _⟩ := h.exists_last (fun e he _ => step e he) hd
  exact step d' hd'

/-- **Every search ends:** the recursion of `saturateFrom` finds the pass that
    decides, and counts the passes. -/
theorem saturateFrom_decides (loop : Loop) (base : List NumberedClause) (d : Derivation)
    (h : d.working.Within base) :
    ∃ p, Decides loop d (saturateFrom loop base d h).events.length p ∧
      p.verdict = some (saturateFrom loop base d h).outcome ∧
      (saturateFrom loop base d h).derivation = p.derivation := by
  fun_induction saturateFrom loop base d h with
  | case1 d h p o ho => exact ⟨p, .last ho, ho, rfl⟩
  | case2 d h p hnone rest ih =>
    obtain ⟨q, hq, hv, hder⟩ := ih
    exact ⟨q, .next hnone hq, hv, hder⟩

theorem saturate_decides (loop : Loop) (d : Derivation) :
    ∃ p, Decides loop d (saturate loop d).events.length p ∧
      p.verdict = some (saturate loop d).outcome ∧
      (saturate loop d).derivation = p.derivation :=
  saturateFrom_decides loop _ d _

/-! ### Runs -/

/-- A derivation with an outcome entered. -/
def Derivation.close (d : Derivation) (o : Outcome) : Derivation :=
  { d with outcome := some o, trace := d.trace ++ [.terminal o d.length d.working.size] }

theorem Run.ending_of_open {d : Derivation} (h : d.outcome = none) (o : Outcome)
    (events : List PassEvent) : Run.ending d o events = ⟨d.close o, .ok o, events⟩ := by
  simp [Run.ending, Derivation.finish, h, Derivation.close]

/-- No attempt and no pass enters an outcome. -/
theorem Pass.outcome_run (loop : Loop) (d : Derivation) :
    (Pass.run loop d).derivation.outcome = d.outcome := by
  have h : (attempts loop d).derivation.outcome = d.outcome := by
    refine attempts_keep (I := fun p => p.derivation.outcome = d.outcome) ?_ rfl
    intro p hp _ pair _
    rcases attempt_cases loop p pair.1 pair.2 with ⟨_, h⟩ | ⟨_, _, h⟩ | ⟨_, r, _, _, h⟩
    · rw [h]; exact hp
    · rw [h]; exact hp
    · rw [h]; exact hp
  rcases run_cases loop d with ⟨_, hrun⟩ | ⟨_, hrun⟩
  · rw [hrun]
    exact h
  · rw [hrun]
    exact h

/-- So the passes up to the one that decides carry the outcome along. -/
theorem Decides.outcome_eq {loop : Loop} {d : Derivation} {n : Nat} {p : Pass}
    (h : Decides loop d n p) : p.derivation.outcome = d.outcome :=
  h.keeps (I := fun e => e.outcome = d.outcome)
    (fun e he => (Pass.outcome_run loop e).trans he) rfl

/-- **What a run can be:** at once over, because the contradiction is given, or
    a search that some pass decides. -/
theorem Loop.run_cases (loop : Loop) {d : Derivation} (hd : d.outcome = none) :
    (d.working.hasEmpty = true ∧ loop.run d = ⟨d.close .proved, .ok .proved, []⟩) ∨
    (d.working.hasEmpty = false ∧ ∃ n p o events, Decides loop d n p ∧ p.verdict = some o ∧
      events.length = n ∧ loop.run d = ⟨p.derivation.close o, .ok o, events⟩) := by
  cases hempty : d.working.hasEmpty with
  | true => exact .inl ⟨rfl, by rw [run, if_pos hempty, Run.ending_of_open hd]⟩
  | false =>
    obtain ⟨p, hdec, hv, hder⟩ := saturate_decides loop d
    -- passes enter no outcome, so the one of the last pass can be entered
    have hopen : p.derivation.outcome = none := hdec.outcome_eq.trans hd
    refine .inr ⟨rfl, _, p, (saturate loop d).outcome, (saturate loop d).events, hdec, hv, rfl, ?_⟩
    rw [run, if_neg (by rw [hempty]; exact Bool.false_ne_true)]
    simp only [hder, Run.ending_of_open hopen]

/-- **A whole run** keeps what every pass and the entry of the outcome keep. -/
theorem Loop.run_keeps {I : Derivation → Prop} (loop : Loop)
    (step : ∀ d, I d → I (Pass.run loop d).derivation) (close : ∀ d o, I d → I (d.close o))
    {d : Derivation} (hopen : d.outcome = none) (hd : I d) : I (loop.run d).derivation := by
  rcases loop.run_cases hopen with ⟨_, hrun⟩ | ⟨_, _, _, o, _, hdec, _, _, hrun⟩
  · rw [hrun]
    exact close d .proved hd
  · rw [hrun]
    exact close _ o (hdec.keeps step hd)

/-- The outcome of a run is entered in its derivation. -/
theorem Loop.exists_outcome (loop : Loop) {d : Derivation} (hd : d.outcome = none) :
    ∃ o, (loop.run d).result = .ok o ∧ (loop.run d).derivation.outcome = some o := by
  rcases loop.run_cases hd with ⟨_, hrun⟩ | ⟨_, _, _, o, _, _, _, _, hrun⟩
  · exact ⟨.proved, by rw [hrun], by rw [hrun]; rfl⟩
  · exact ⟨o, by rw [hrun], by rw [hrun]; rfl⟩

/-- One pass decides, and no other. -/
theorem Decides.unique {loop : Loop} {d : Derivation} {m n : Nat} {p q : Pass}
    (hp : Decides loop d m p) (hq : Decides loop d n q) : p = q := by
  induction hp generalizing n with
  | last hv =>
    cases hq with
    | last _ => rfl
    | next hnone _ =>
      rw [hv] at hnone
      cases hnone
  | next hnone _ ih =>
    cases hq with
    | last hv =>
      rw [hv] at hnone
      cases hnone
    | next _ rest => exact ih rest

/-- A run without the contradiction ends as the pass that decides it says. -/
theorem Loop.result_of_decides {loop : Loop} {d : Derivation} (hd : d.outcome = none)
    (hempty : d.working.hasEmpty = false) {n : Nat} {p : Pass} (hdec : Decides loop d n p)
    {o : Outcome} (ho : p.verdict = some o) : (loop.run d).result = .ok o := by
  rcases loop.run_cases hd with ⟨hnot, _⟩ | ⟨_, m, q, o', _, hdec', hv, _, hrun⟩
  · rw [hempty] at hnot
    cases hnot
  · obtain rfl := hdec.unique hdec'
    rw [ho] at hv
    rw [hrun, Option.some.inj hv]

/-- **Nothing is lost:** a run ends with the clauses it began with in front. -/
theorem Loop.clauses_prefix_run (loop : Loop) {d : Derivation} (hd : d.outcome = none) :
    d.working.clauses <+: (loop.run d).derivation.working.clauses := by
  have pass : ∀ e : Derivation, d.working.clauses <+: e.working.clauses →
      d.working.clauses <+: (Pass.run loop e).derivation.working.clauses := by
    intro e he
    rw [Pass.clauses_run]
    refine Pass.attempts_keep (I := fun p =>
      d.working.clauses <+: p.derivation.working.clauses) ?_ he
    intro p hp _ pair _
    exact hp.trans (Pass.clauses_attempt_mono loop p pair.1 pair.2)
  exact loop.run_keeps (I := fun e => d.working.clauses <+: e.working.clauses) pass
    (fun _ _ he => he) hd (List.prefix_refl _)

/-- Without a cap no pass gives up. -/
theorem Pass.verdict_run_ne_inconclusive {loop : Loop} (hcap : loop.cap = none) (d : Derivation) :
    (Pass.run loop d).verdict ≠ some .inconclusive := by
  have hne : (attempts loop d).verdict ≠ some .inconclusive := by
    refine verdict_attempts_ne fun p left right r => ?_
    simp only [gain, Loop.capReached, hcap]
    split <;> simp
  rcases run_cases loop d with ⟨_, hrun⟩ | ⟨_, hrun⟩
  · rw [hrun]
    exact hne
  · rw [hrun]
    show (if (attempts loop d).added = 0 then some Outcome.saturated else none) ≠ _
    split <;> simp

/-- **Without a cap a run is decisive.** -/
theorem Loop.result_of_uncapped {loop : Loop} (hcap : loop.cap = none) {d : Derivation}
    (hd : d.outcome = none) :
    (loop.run d).result = .ok .proved ∨ (loop.run d).result = .ok .saturated := by
  rcases loop.run_cases hd with ⟨_, hrun⟩ | ⟨_, n, p, o, events, hdec, hv, _, hrun⟩
  · exact .inl (by rw [hrun])
  · obtain ⟨d', _, _, rfl, _⟩ := hdec.exists_last (I := fun _ => True)
      (fun _ _ _ => trivial) trivial
    -- the pass that decides does not give up
    have hne := Pass.verdict_run_ne_inconclusive hcap d'
    rw [hv] at hne
    rw [hrun]
    cases o with
    | proved => exact .inl rfl
    | saturated => exact .inr rfl
    | inconclusive => exact absurd rfl hne

/-! ### What the rule keeps, the search keeps -/

section Clausewise

variable {P : Clause → Prop}
  (rule : ∀ {left right : Clause} {r : Resolvent}, P left → P right →
    resolve left right = some r → P r.clause)
include rule

/-- **An attempt** of two clauses with a property that the rule keeps. -/
theorem Pass.forall_attempt (loop : Loop) {p : Pass}
    (h : ∀ c ∈ p.derivation.working.clauses, P c.toClause) {left right : NumberedClause}
    (hl : P left.toClause) (hr : P right.toClause) :
    ∀ c ∈ (p.attempt loop left right).derivation.working.clauses, P c.toClause := by
  rcases attempt_cases loop p left right with ⟨_, hp⟩ | ⟨_, _, hp⟩ | ⟨_, r, hres, _, hp⟩
  · rw [hp]
    exact h
  · rw [hp, working_idle, WorkingSet.clauses_markAttempted]
    exact h
  · rw [hp]
    intro c hc
    rw [working_gain, clauses_gainedSet, List.mem_append, List.mem_singleton] at hc
    rcases hc with hc | rfl
    · exact h c hc
    · exact rule hl hr hres

/-- **A pass** takes its pairs from the working set. -/
theorem Pass.forall_run (loop : Loop) {d : Derivation}
    (h : ∀ c ∈ d.working.clauses, P c.toClause) :
    ∀ c ∈ (Pass.run loop d).derivation.working.clauses, P c.toClause := by
  rw [clauses_run]
  refine attempts_keep (I := fun p => ∀ c ∈ p.derivation.working.clauses, P c.toClause) ?_ h
  intro p hp _ pair hpair
  obtain ⟨hl, hr⟩ := mem_pairs hpair
  exact forall_attempt rule loop hp (h _ hl) (h _ hr)

/-- **A run:** a property of all given clauses that the rule keeps is one of all
    clauses at the end. -/
theorem Loop.forall_run (loop : Loop) {d : Derivation} (hd : d.outcome = none)
    (h : ∀ c ∈ d.working.clauses, P c.toClause) :
    ∀ c ∈ (loop.run d).derivation.working.clauses, P c.toClause :=
  loop.run_keeps (I := fun e => ∀ c ∈ e.working.clauses, P c.toClause)
    (fun _ he => Pass.forall_run rule loop he) (fun _ _ he => he) hd h

end Clausewise

/-! ### Fresh working sets -/

theorem checkNumbers_labelled (clauses : List NumberedClause) :
    ∀ seen : List Int, (clauses.map (·.id)).Nodup → (∀ c ∈ clauses, c.id ∉ seen) →
      WorkingSet.checkNumbers seen (clauses.map NumberedClause.labelled) = .ok clauses := by
  induction clauses with
  | nil => intro _ _ _; rfl
  | cons c rest ih =>
    intro seen hnodup hseen
    rw [List.map_cons, List.nodup_cons] at hnodup
    have hrest := ih (c.id :: seen) hnodup.2 (fun e he hmem => by
      rcases List.mem_cons.1 hmem with heq | hmem
      · exact hnodup.1 (List.mem_map.2 ⟨e, he, heq⟩)
      · exact hseen e (List.mem_cons_of_mem _ he) hmem)
    have hc : c.id ∉ seen := hseen c (List.mem_cons_self ..)
    simp [WorkingSet.checkNumbers, NumberedClause.labelled, hc, hrest, Clause.withId]

/-- The working set of numbered clauses. -/
def WorkingSet.initial (clauses : List NumberedClause) : WorkingSet :=
  { clauses, nextId := nextAfter (clauses.map (·.id)) }

/-- **Different numbers are all it takes** to make a working set. -/
theorem ofClauses_labelled {clauses : List NumberedClause} (h : (clauses.map (·.id)).Nodup) :
    WorkingSet.ofClauses (clauses.map NumberedClause.labelled) = .ok (.initial clauses) := by
  simp [WorkingSet.ofClauses, checkNumbers_labelled clauses [] h (by simp), WorkingSet.initial]

end Refuter
